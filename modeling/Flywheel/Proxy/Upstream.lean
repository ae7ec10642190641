import Flywheel.Lib.Program
import Flywheel.Proxy.Service

/-!
# Talking to the upstream (`ProxyService::send_validated`)

One fetch sends its requests one after the other: up to three attempts at each hop, and up
to `REDIRECT_HOP_LIMIT` redirects. The client itself never follows a redirect, so every
request is handed to it here. `World.log` records them; what the upstream answers is any
function of the requests so far (`SendResult`), so all sequences of answers are covered.

`Contacts n` says that the log holds at most `n` requests and that each goes to an allowed
origin. An attempt adds one request, a hop three (`sendAttempts_contacts`), and a whole
exchange three for each hop (`sendValidated_contacts`).
-/

set_option autoImplicit false

namespace Flywheel

open Lib

/-! ## Exchanges -/

/-- A GET as the proxy builds it. -/
structure Request (U : Type) where
  url : U
  accept : Option String
  ifNoneMatch : Option String
  ifModifiedSince : Option String

/-- What the proxy reads of a response; a header that is not visible text reads as absent. -/
structure UpstreamResponse where
  status : Nat
  location : Option String
  contentType : Option String
  etag : Option String
  lastModified : Option String
  body : Bytes

inductive SendResult where
  | response (r : UpstreamResponse)
  | failure (e : HttpError)

/-- A fetch under way: the cache it works on and the requests it has sent. -/
structure World (U κ : Type) where
  cache : κ
  log : List (Request U)

variable {U κ : Type}

/-- The answer to a request may depend on everything sent before. -/
abbrev Upstream (U : Type) : Type := List (Request U) → Request U → SendResult

/-- `request.send()`. -/
def send (upstream : Upstream U) (request : Request U) : EStateM ProxyError (World U κ) SendResult :=
  fun w => .ok (upstream w.log request) { w with log := w.log ++ [request] }

/-- The request for `target`, with the validators of the stored reference. -/
def conditionalRequest (target : U) (current : Option ReferenceRecord) (accept : Option String) :
    Request U where
  url := target
  accept := accept
  ifNoneMatch := current.bind (·.etag)
  ifModifiedSince := current.bind (·.lastModified)

def isServerError (status : Nat) : Bool := decide (500 ≤ status ∧ status < 600)

def isSuccess (status : Nat) : Bool := decide (200 ≤ status ∧ status < 300)

/-- The statuses that carry a `Location` to follow; 304 is not one of them. -/
def isRedirect (status : Nat) : Bool := [301, 302, 303, 307, 308].contains status

def redirectHopLimit : Nat := 5

/-- The attempts at one hop that are left: a server error, a failed connection or a timeout
is tried again while there is one after it. -/
def sendAttempts (upstream : Upstream U) (request : Request U) :
    Nat → EStateM ProxyError (World U κ) UpstreamResponse
  | 0 => throw (.unavailable "upstream retry budget exhausted")
  | remaining + 1 => do
    match ← send upstream request with
    | .response candidate =>
      if isServerError candidate.status ∧ 0 < remaining then
        sendAttempts upstream request remaining
      else return candidate
    | .failure error =>
      if 0 < remaining ∧ (error.isConnect ∨ error.isTimeout) then
        sendAttempts upstream request remaining
      else throw (.http error)

namespace ProxyService

variable (service : ProxyService U)

/-- The loop over the hops that are left. -/
def followRedirects (upstream : Upstream U) (protocol : Protocol)
    (current : Option ReferenceRecord) (accept : Option String) :
    Nat → U → EStateM ProxyError (World U κ) UpstreamResponse
  | 0, _ => throw (.unavailable "upstream redirect limit exceeded")
  | hops + 1, target => do
    let response ← sendAttempts upstream (conditionalRequest target current accept) 3
    if ¬ isRedirect response.status then return response
    else
      match response.location with
      | none => throw (.unavailable "redirect without a Location header")
      | some location =>
        match service.urls.join target location with
        | .error reason => throw (.url reason)
        | .ok next =>
          ofExcept (service.checkOrigin protocol next)
          followRedirects upstream protocol current accept hops next

/-- One initial request and up to `REDIRECT_HOP_LIMIT` follows. -/
def sendValidated (upstream : Upstream U) (protocol : Protocol) (url : U)
    (current : Option ReferenceRecord) (accept : Option String) :
    EStateM ProxyError (World U κ) UpstreamResponse :=
  service.followRedirects upstream protocol current accept (redirectHopLimit + 1) url

/-! ## Whom the proxy contacts -/

/-- At most `n` requests so far, every one to an origin allowed for the protocol. -/
def Contacts (protocol : Protocol) (n : Nat) (w : World U κ) : Prop :=
  (∀ q ∈ w.log, service.Allows protocol q.url) ∧ w.log.length ≤ n

variable {service} {upstream : Upstream U} {protocol : Protocol}

theorem Contacts.mono {n n' : Nat} (hn : n ≤ n') {w : World U κ}
    (h : service.Contacts protocol n w) : service.Contacts protocol n' w :=
  ⟨h.1, Nat.le_trans h.2 hn⟩

theorem send_contacts {request : Request U} (hurl : service.Allows protocol request.url) (n : Nat) :
    Always (service.Contacts protocol n) (send (κ := κ) upstream request)
      (service.Contacts protocol (n + 1)) := by
  rintro w ⟨hallowed, hlength⟩
  refine ⟨?_, ?_⟩
  · intro q hq
    rcases List.mem_append.mp hq with hold | hnew
    · exact hallowed q hold
    · rw [List.mem_singleton] at hnew
      subst hnew
      exact hurl
  · show (w.log ++ [request]).length ≤ n + 1
    rw [List.length_append]
    exact Nat.add_le_add_right hlength 1

/-- One hop: each attempt that is left adds at most one request. -/
theorem sendAttempts_contacts {request : Request U}
    (hurl : service.Allows protocol request.url) (attempts n : Nat) :
    Always (service.Contacts protocol n) (sendAttempts (κ := κ) upstream request attempts)
      (service.Contacts protocol (n + attempts)) := by
  induction attempts generalizing n with
  | zero => exact Triple.throw fun w hw => hw
  | succ remaining ih =>
    unfold sendAttempts
    have hdone : ∀ w : World U κ, service.Contacts protocol (n + 1) w →
        service.Contacts protocol (n + (remaining + 1)) w :=
      fun w hw => hw.mono (by omega)
    have hretry : Always (service.Contacts protocol (n + 1))
        (sendAttempts (κ := κ) upstream request remaining)
        (service.Contacts protocol (n + (remaining + 1))) := by
      have hrest := ih (n + 1)
      rwa [Nat.add_assoc, Nat.add_comm 1 remaining] at hrest
    refine Triple.bind (Q := fun _ => service.Contacts protocol (n + 1)) ?_ ?_
    · exact (send_contacts hurl n).conseq (fun _ h => h) (fun _ _ h => h) (fun _ => hdone)
    · intro result
      cases result with
      | response candidate =>
        dsimp only
        split
        · exact hretry
        · exact Triple.pure hdone
      | failure error =>
        dsimp only
        split
        · exact hretry
        · exact Triple.throw hdone

/-- A redirect is followed only after its target has been checked. -/
theorem followRedirects_contacts {current : Option ReferenceRecord} {accept : Option String}
    (hops n : Nat) {target : U} (htarget : service.Allows protocol target) :
    Always (service.Contacts protocol n)
      (service.followRedirects (κ := κ) upstream protocol current accept hops target)
      (service.Contacts protocol (n + 3 * hops)) := by
  induction hops generalizing n target with
  | zero => exact Triple.throw fun w hw => hw
  | succ hops ih =>
    unfold followRedirects
    have hdone : ∀ w : World U κ, service.Contacts protocol (n + 3) w →
        service.Contacts protocol (n + 3 * (hops + 1)) w :=
      fun w hw => hw.mono (by omega)
    refine Triple.bind (Q := fun _ => service.Contacts protocol (n + 3)) ?_ ?_
    · exact (sendAttempts_contacts htarget 3 n).conseq (fun _ h => h) (fun _ _ h => h)
        (fun _ => hdone)
    · intro response
      split
      · exact Triple.pure hdone
      · split
        · exact Triple.throw hdone
        · split
          · exact Triple.throw hdone
          · rename_i next _
            refine Triple.bind (Q := fun _ w => service.Allows protocol next ∧
              service.Contacts protocol (n + 3) w) ?_ ?_
            · refine Triple.ofExcept ?_ (fun _ w _ hw => hdone w hw)
              intro u w hcheck hw
              exact ⟨service.allows_of_checkOrigin hcheck, hw⟩
            · rintro u w ⟨hnext, hw⟩
              have hrest := ih (n + 3) hnext w hw
              rwa [Nat.add_assoc, Nat.add_comm 3 (3 * hops), ← Nat.mul_succ] at hrest

variable (upstream) in
/-- A whole exchange: three requests for each of the hops. -/
theorem sendValidated_contacts {url : U} (hurl : service.Allows protocol url)
    (current : Option ReferenceRecord) (accept : Option String) (n : Nat) :
    Always (service.Contacts protocol n)
      (service.sendValidated (κ := κ) upstream protocol url current accept)
      (service.Contacts protocol (n + 3 * (redirectHopLimit + 1))) :=
  followRedirects_contacts (redirectHopLimit + 1) n hurl

end ProxyService

end Flywheel
