import Flywheel.Proxy.Eviction
import Flywheel.Proxy.Flight
import Mathlib.Data.Set.Card

/-!
# What coalescing saves the upstream (`ProxyService::fetch_url`)

The map of `Flight` serializes the fetches of a coordinate. Here the fetches also read and
bind the reference that they coalesce for: a fetch reads it, judges it by the clock, reads
and judges it again behind the lock, and takes a permit when it is neither fresh nor backed
by a body. With the permit it consults the upstream, and rebinds the reference or leaves
without. What is counted here are the fetches, not the requests they send: one fetch follows
redirects and tries again (`send_validated`), and a body that is not stored is streamed on
after the fetch has returned and dropped its permit.

A reference is read at one moment and judged at another, and anything may happen to it in
between: another fetch may rebind it, or `delete_reference` and channel deletion may remove
it. `history` notes what became of each coordinate; it is no part of the service.

- `flight_of_reach`: every run is a run of the coalescing protocol.
- `upstream_once_per_ttl`: while the clock stays within one revalidation TTL, one fetch of a
  coordinate takes a permit, and one more for each fetch that failed, each body that was
  reclaimed and each reference that was removed.
-/

set_option autoImplicit false

namespace Flywheel.Herd

open Lib Flight

/-! ## The fetches -/

/-- What may become of a coordinate. -/
inductive Note where
  /-- A fetch has taken a permit to consult the upstream for it. -/
  | consulted
  /-- A fetch came back without binding the reference. -/
  | failed
  /-- The reference is fresh and its body is gone. -/
  | missing
  | forgotten
  deriving DecidableEq

structure Proxy (ι : Type) where
  requests : Requests ι
  references : ChannelId → Bytes → Option ReferenceRecord
  history : List (Bytes × Note)

namespace Proxy

variable {ι : Type} (s : Proxy ι)

def new (ι : Type) (permits : Nat) (references : ChannelId → Bytes → Option ReferenceRecord) :
    Proxy ι :=
  ⟨Requests.new ι permits, references, []⟩

/-- What the map keeps for a fetch of this coordinate. -/
def current (c : ChannelId) (name : Bytes) : Option ReferenceRecord := s.references c name

def note (c : ChannelId) (name : Bytes) (n : Note) : Proxy ι :=
  { s with history := (requestKey c name, n) :: s.history }

/-- How often this has become of the coordinate. -/
def times (c : ChannelId) (name : Bytes) (n : Note) : Nat :=
  s.history.count (requestKey c name, n)

/-- `bind_reference_with_validators`. -/
def bind (c : ChannelId) (name : Bytes) (record : ReferenceRecord) : Proxy ι :=
  { s with references := fun c' n =>
      if c' = c ∧ n = name then some record else s.references c' n }

/-- `delete_reference`, and what a channel's deletion does to each of its references. -/
def forget (c : ChannelId) (name : Bytes) : Proxy ι :=
  { s with references := fun c' n => if c' = c ∧ n = name then none else s.references c' n }

end Proxy

/-- Where a fetch is; it holds the lock `l`, and has read `seen`. -/
inductive Stage where
  | resolve
  | judge (seen : Option ReferenceRecord)
  | entry
  | lock (l : Nat)
  | reread (l : Nat)
  | rejudge (l : Nat) (seen : Option ReferenceRecord)
  | acquire (l : Nat) (current : Option ReferenceRecord)
  /-- It holds a permit: `send_validated`, and what is made of the answer. -/
  | upstream (l : Nat) (current : Option ReferenceRecord)
  /-- `revalidated` has rebound the reference and looks for the body. -/
  | confirm (l : Nat)
  | dropPermit (l : Nat)
  | dropGuard (l : Nat)
  | dropFlight (l : Nat)
  | dropClone (l : Nat)
  | returned
  deriving DecidableEq

inductive Call where
  | idle
  /-- A raw file is answered without being looked up. -/
  | fetch (c : ChannelId) (name : Bytes) (raw : Bool) (stage : Stage)
  deriving DecidableEq

inductive Event where
  | start (c : ChannelId) (name : Bytes) (raw : Bool)
  | next
  /-- What the clock says, and whether the body of a fresh reference is found. -/
  | judge (now : UInt64) (found : Bool)
  /-- The upstream answers 304. -/
  | revalidate (now : UInt64)
  /-- The upstream answers with a body, which is stored. -/
  | store (a : ArtifactId) (now : UInt64) (etag lastModified : Option String)
  | leave

/-- The time that an event reads off the clock. -/
def Event.clock : Event → Option UInt64
  | .judge now _ | .revalidate now | .store _ now _ _ => some now
  | _ => none

section Step

variable {U ι : Type} [DecidableEq ι] (service : ProxyService U) (i : ι)

/-- `fresh_outcome`: an answer, or why there is none. -/
inductive Verdict where
  | answered
  | missing
  | stale
  deriving DecidableEq

def freshOutcome (raw : Bool) (seen : Option ReferenceRecord) (now : UInt64) (found : Bool) :
    Verdict :=
  match seen.filter (service.fresh now) with
  | none => .stale
  | some _ => if raw || found then .answered else .missing

def fetchStep (c : ChannelId) (name : Bytes) (raw : Bool) :
    Stage → Event → Proxy ι → Option (Proxy ι × Stage)
  | .resolve, .next, s => some (s, .judge (s.references c name))
  | .resolve, .leave, s => some (s, .returned)
  | .judge seen, .judge now found, s =>
    match freshOutcome service raw seen now found with
    | .answered => some (s, .returned)
    | .missing | .stale => some (s, .entry)
  | .judge _, .leave, s => some (s, .returned)
  | .entry, .next, s =>
    let r := s.requests.lookup (requestKey c name) i
    some ({ s with requests := r.1 }, .lock r.2)
  | .lock l, .next, s =>
    (s.requests.mutexes.lock l i).map fun m =>
      ({ s with requests := { s.requests with mutexes := m } }, .reread l)
  | .lock l, .leave, s => some (s, .dropFlight l)
  | .reread l, .next, s => some (s, .rejudge l (s.references c name))
  | .reread l, .leave, s => some (s, .dropGuard l)
  | .rejudge l seen, .judge now found, s =>
    match freshOutcome service raw seen now found with
    | .answered => some (s, .dropGuard l)
    | .missing => some (s.note c name .missing, .acquire l seen)
    | .stale => some (s, .acquire l seen)
  | .rejudge l _, .leave, s => some (s, .dropGuard l)
  | .acquire l seen, .next, s =>
    if 0 < s.requests.permits then
      some ({ s.note c name .consulted with
        requests := { s.requests with permits := s.requests.permits - 1 } }, .upstream l seen)
    -- `ProxyError::Busy`
    else some (s, .dropGuard l)
  | .upstream l seen, .revalidate now, s =>
    seen.map fun record =>
      (s.bind c name { record with updatedAt := now }, .confirm l)
  | .upstream l _, .store a now etag lastModified, s =>
    some (s.bind c name ⟨a, now, etag, lastModified⟩, .dropPermit l)
  -- an answer that is passed on and not stored, an error, or a cancellation
  | .upstream l _, .leave, s => some (s.note c name .failed, .dropPermit l)
  | .confirm l, .leave, s => some (s, .dropPermit l)
  | .dropPermit l, .next, s =>
    some ({ s with requests := { s.requests with permits := s.requests.permits + 1 } },
      .dropGuard l)
  | .dropGuard l, .next, s =>
    some ({ s with requests := { s.requests with mutexes := s.requests.mutexes.unlock l } },
      .dropFlight l)
  | .dropFlight l, .next, s =>
    some ({ s with requests := s.requests.removeIf (requestKey c name) }, .dropClone l)
  | .dropClone l, .next, s =>
    some ({ s with requests := s.requests.dropClone l i }, .returned)
  | _, _, _ => none

def Call.step (e : Event) (s : Proxy ι) : Call → Option (Proxy ι × Call)
  | .idle =>
    match e with
    | .start c name raw => some (s, .fetch c name raw .resolve)
    | _ => none
  | .fetch c name raw stage =>
    (fetchStep service i c name raw stage e s).map fun r => (r.1, .fetch c name raw r.2)

end Step

/-- Any number of fetches over one map and one set of references. -/
abbrev Fetches (ι : Type) : Type := Pool ι (Proxy ι) Call

inductive Action (ι : Type) where
  | call (i : ι) (e : Event)
  /-- Another operation removes a reference. -/
  | forget (c : ChannelId) (name : Bytes)

def Action.clock {ι : Type} : Action ι → Option UInt64
  | .call _ e => e.clock
  | .forget .. => none

section Run

variable {U ι : Type} [DecidableEq ι] (service : ProxyService U)

def Fetches.fire (p : Fetches ι) : Action ι → Option (Fetches ι)
  | .call i e => Pool.fire (fun i e s t => Call.step service i e s t) p i e
  | .forget c name =>
    some { p with shared := (p.shared.forget c name).note c name .forgotten }

def fetches (ι : Type) [DecidableEq ι] (concurrency : Nat) : System (Fetches ι) (Action ι) where
  init p := ∃ references, p = ⟨Proxy.new ι concurrency references, fun _ => .idle⟩
  step p a p' := p.fire service a = some p'

end Run

/-! ## The coalescing protocol below -/

def Stage.toFlight : Stage → Flight.Stage
  | .resolve | .judge _ => .resolve
  | .entry => .entry
  | .lock l => .lock l
  | .reread l | .rejudge l _ => .reread l
  | .acquire l _ => .acquire l
  | .upstream l _ | .confirm l => .upstream l
  | .dropPermit l => .dropPermit l
  | .dropGuard l => .dropGuard l
  | .dropFlight l => .dropFlight l
  | .dropClone l => .dropClone l
  | .returned => .returned

def Call.toFlight : Call → Flight.Call
  | .idle => .idle
  | .fetch c name _ stage => .fetch c name stage.toFlight

def Fetches.toCalls {ι : Type} (p : Fetches ι) : Calls ι :=
  ⟨p.shared.requests, fun i => (p.task i).toFlight⟩

section Refinement

variable {U ι : Type} [DecidableEq ι] {service : ProxyService U} {i j : ι} {e : Event}
  {s s' : Proxy ι} {t t' : Call} {p p' : Fetches ι} {concurrency : Nat}

theorem fetchStep_toFlight {c : ChannelId} {name : Bytes} {raw : Bool} {stage stage' : Stage}
    (h : fetchStep service i c name raw stage e s = some (s', stage')) :
    (s'.requests = s.requests ∧ stage'.toFlight = stage.toFlight) ∨
      ∃ e', Flight.fetchStep i c name stage.toFlight e' s.requests =
        some (s'.requests, stage'.toFlight) := by
  cases stage with
  | resolve =>
    cases e <;> cases h
    · exact .inl ⟨rfl, rfl⟩
    · exact .inr ⟨.leave, rfl⟩
  | judge seen =>
    cases e with
    | judge now found =>
      rw [fetchStep] at h
      split at h <;> cases h
      · exact .inr ⟨.leave, rfl⟩
      · exact .inr ⟨.next, rfl⟩
      · exact .inr ⟨.next, rfl⟩
    | leave =>
      cases h
      exact .inr ⟨.leave, rfl⟩
    | _ => cases h
  | entry =>
    cases e <;> cases h
    exact .inr ⟨.next, rfl⟩
  | lock l =>
    cases e with
    | next =>
      obtain ⟨m, hm, heq⟩ := Option.map_eq_some_iff.mp h
      cases heq
      exact .inr ⟨.next, Option.map_eq_some_iff.mpr ⟨m, hm, rfl⟩⟩
    | leave =>
      cases h
      exact .inr ⟨.leave, rfl⟩
    | _ => cases h
  | reread l =>
    cases e <;> cases h
    · exact .inl ⟨rfl, rfl⟩
    · exact .inr ⟨.leave, rfl⟩
  | rejudge l seen =>
    cases e with
    | judge now found =>
      rw [fetchStep] at h
      split at h <;> cases h
      · exact .inr ⟨.leave, rfl⟩
      · exact .inr ⟨.next, rfl⟩
      · exact .inr ⟨.next, rfl⟩
    | leave =>
      cases h
      exact .inr ⟨.leave, rfl⟩
    | _ => cases h
  | acquire l seen =>
    cases e with
    | next =>
      rw [fetchStep] at h
      split at h <;> cases h
      · rename_i hpermits
        exact .inr ⟨.next, if_pos hpermits⟩
      · rename_i hpermits
        exact .inr ⟨.next, if_neg hpermits⟩
    | _ => cases h
  | upstream l seen =>
    cases e with
    | revalidate now =>
      obtain ⟨record, -, heq⟩ := Option.map_eq_some_iff.mp h
      cases heq
      exact .inl ⟨rfl, rfl⟩
    | store a now etag lastModified =>
      cases h
      exact .inr ⟨.leave, rfl⟩
    | leave =>
      cases h
      exact .inr ⟨.leave, rfl⟩
    | _ => cases h
  | confirm l =>
    cases e <;> cases h
    exact .inr ⟨.leave, rfl⟩
  | returned => cases e <;> cases h
  | _ =>
    cases e <;> cases h
    exact .inr ⟨.next, rfl⟩

theorem step_toFlight (h : Call.step service i e s t = some (s', t')) :
    (s'.requests = s.requests ∧ t'.toFlight = t.toFlight) ∨
      ∃ e', Flight.Call.step i e' s.requests t.toFlight = some (s'.requests, t'.toFlight) := by
  cases t with
  | idle =>
    cases e with
    | start c name raw =>
      cases h
      exact .inr ⟨.start c name, rfl⟩
    | _ => cases h
  | fetch c name raw stage =>
    obtain ⟨⟨x, stage'⟩, hstep, heq⟩ := Option.map_eq_some_iff.mp h
    cases heq
    rcases fetchStep_toFlight hstep with ⟨hrequests, hstage⟩ | ⟨e', hstep'⟩
    · exact .inl ⟨hrequests, congrArg (Flight.Call.fetch c name) hstage⟩
    · refine .inr ⟨e', ?_⟩
      rw [Call.toFlight, Flight.Call.step, hstep']
      rfl

/-- A step of the fetches is one of the coalescing protocol, or nothing that it sees. -/
theorem toCalls_of_fire {a : Action ι} (h : p.fire service a = some p') :
    p'.toCalls = p.toCalls ∨ ∃ b, p.toCalls.fire b = some p'.toCalls := by
  cases a with
  | forget c name =>
    cases h
    exact .inl rfl
  | call i e =>
    obtain ⟨hown, hother⟩ := Pool.fire_eq_some h
    have htask : ∀ x : Flight.Call, (p'.task i).toFlight = x →
        (fun j => (p'.task j).toFlight) = Function.update p.toCalls.task i x := by
      intro x hx
      funext j
      by_cases hj : j = i
      · subst hj
        rw [hx, Function.update_self]
      · rw [hother j hj, Function.update_of_ne hj]
        rfl
    rcases step_toFlight hown with ⟨hrequests, hsame⟩ | ⟨e', hstep⟩
    · refine .inl ?_
      rw [Fetches.toCalls, hrequests, htask _ hsame]
      exact congrArg (Pool.mk p.shared.requests) (Function.update_eq_self i p.toCalls.task)
    · refine .inr ⟨⟨i, e'⟩, ?_⟩
      refine Option.map_eq_some_iff.mpr ⟨(p'.shared.requests, (p'.task i).toFlight), hstep, ?_⟩
      exact congrArg (Pool.mk p'.shared.requests) (htask _ rfl).symm

/-- Every run of the fetches is a run of the coalescing protocol. -/
theorem flight_of_reach {G : Fetches ι → Action ι → Prop}
    (h : (fetches service ι concurrency).Reach G p) :
    (calls ι).Reach (fun _ _ => True) p.toCalls := by
  refine h.invariant (I := fun x => (calls ι).Reach (fun _ _ => True) x.toCalls) ?_
    fun x a y hx _ hstep => ?_
  · rintro _ ⟨references, rfl⟩
    exact ⟨_, ⟨concurrency, rfl⟩, Relation.ReflTransGen.refl⟩
  · rcases toCalls_of_fire hstep with hsame | ⟨b, hb⟩
    · exact hsame ▸ hx
    · exact hx.tail trivial hb

/-- The coordinate of a call behind its lock. -/
def Call.behind (t : Call) : Option Bytes := t.toFlight.guard.map (·.1)

/-- One call at a time is behind the lock of a coordinate. -/
theorem behind_unique {G : Fetches ι → Action ι → Prop}
    (h : (fetches service ι concurrency).Reach G p) {k : Bytes}
    (hi : (p.task i).behind = some k) (hj : (p.task j).behind = some k) : i = j := by
  have hinv := coalesced_of_reach (flight_of_reach h)
  obtain ⟨⟨_, l⟩, hgi, rfl⟩ := Option.map_eq_some_iff.mp hi
  obtain ⟨⟨_, m⟩, hgj, rfl⟩ := Option.map_eq_some_iff.mp hj
  -- both locks are the map's for the key, so they are one lock, which has one holder
  have hei := (hinv.holds i).entry _ _ (Flight.Call.flight_of_guard hgi)
  have hej := (hinv.holds j).entry _ _ (Flight.Call.flight_of_guard hgj)
  obtain rfl : l = m := Option.some.inj (hei.symm.trans hej)
  have hmi := (hinv.holds i).guard _ _ hgi
  have hmj := (hinv.holds j).guard _ _ hgj
  exact Option.some.inj (hmi.symm.trans hmj)

end Refinement

/-! ## What a step does to a coordinate -/

section Accounts

variable {U ι : Type} {service : ProxyService U} {i j : ι} {e : Event}
  {s s' : Proxy ι} {t t' : Call} {p p' : Fetches ι} {concurrency : Nat}
  {c : ChannelId} {name : Bytes}

/-- The stages at which a fetch is about to take a permit, and consults the upstream with it. -/
def Stage.acquires : Stage → Bool
  | .acquire .. => true
  | _ => false

def Stage.consults : Stage → Bool
  | .upstream .. => true
  | _ => false

/-- What a step of a fetch does to the reference of its coordinate and to the notes. -/
inductive Move (service : ProxyService U) (c : ChannelId) (name : Bytes) (raw : Bool)
    (e : Event) (s : Proxy ι) (stage : Stage) (s' : Proxy ι) (stage' : Stage) : Prop
  | quiet (hreferences : s'.references = s.references) (hhistory : s'.history = s.history)
    (hconsults : stage.consults = false) (hconsults' : stage'.consults = false)
    (hacquires' : stage'.acquires = false)
    (hseen : ∀ l seen, stage' = .rejudge l seen → seen = s.references c name)
  | missing {l : Nat} {seen : Option ReferenceRecord} (hstage : stage = .rejudge l seen)
    (hs : s' = s.note c name .missing) (hstage' : stage' = .acquire l seen)
  | stale {l : Nat} {seen : Option ReferenceRecord} {now : UInt64}
    (hstage : stage = .rejudge l seen) (hclock : e.clock = some now)
    (hstale : seen.filter (service.fresh now) = none) (hs : s' = s)
    (hstage' : stage' = .acquire l seen)
  | consulted {l : Nat} {seen : Option ReferenceRecord} (hstage : stage = .acquire l seen)
    (hreferences : s'.references = s.references)
    (hhistory : s'.history = (requestKey c name, .consulted) :: s.history)
    (hstage' : stage' = .upstream l seen)
  | bound {l : Nat} {seen : Option ReferenceRecord} {record : ReferenceRecord}
    (hstage : stage = .upstream l seen) (hclock : e.clock = some record.updatedAt)
    (hs : s' = s.bind c name record) (hstage' : stage' = .confirm l ∨ stage' = .dropPermit l)
  | failed {l : Nat} {seen : Option ReferenceRecord} (hstage : stage = .upstream l seen)
    (hs : s' = s.note c name .failed) (hstage' : stage' = .dropPermit l)

/-- A fetch at one of these stages is behind the lock. -/
theorem behind_of_stage {raw : Bool} {stage : Stage} (ht : t = .fetch c name raw stage)
    (hstage : stage.toFlight.guard.isSome) : t.behind = some (requestKey c name) := by
  obtain ⟨l, hl⟩ := Option.isSome_iff_exists.mp hstage
  rw [ht, Call.behind, Call.toFlight, Flight.Call.guard, hl]
  rfl

/-- The state of a coordinate as its fetches leave it. -/
def Proxy.SameAt (s s' : Proxy ι) (c : ChannelId) (name : Bytes) : Prop :=
  s'.references c name = s.references c name ∧
    ∀ n, s'.times c name n = s.times c name n

theorem Proxy.times_note (s : Proxy ι) (c : ChannelId) (name : Bytes) (n m : Note) :
    (s.note c name n).times c name m = s.times c name m + if n = m then 1 else 0 := by
  rw [Proxy.times, Proxy.note, List.count_cons]
  by_cases hn : n = m
  · simp [hn, Proxy.times]
  · simp [hn, Proxy.times]

theorem Proxy.sameAt_note {c' : ChannelId} {name' : Bytes} (s : Proxy ι) (n : Note)
    (hne : ¬ (c' = c ∧ name' = name)) : s.SameAt (s.note c' name' n) c name := by
  refine ⟨rfl, fun m => ?_⟩
  rw [Proxy.times, Proxy.note, List.count_cons_of_ne]
  · rfl
  · intro heq
    exact hne (requestKey_inj.mp (Prod.mk.inj heq).1)

/-- A fetch leaves the other coordinates alone. -/
theorem Move.sameAt {c' : ChannelId} {name' : Bytes} {raw : Bool} {stage stage' : Stage}
    (h : Move service c' name' raw e s stage s' stage') (hne : ¬ (c' = c ∧ name' = name)) :
    s.SameAt s' c name := by
  cases h with
  | quiet hreferences hhistory =>
    exact ⟨by rw [hreferences], fun n => by rw [Proxy.times, hhistory, Proxy.times]⟩
  | missing _ hs => exact hs ▸ s.sameAt_note .missing hne
  | stale _ _ _ hs => exact hs ▸ ⟨rfl, fun _ => rfl⟩
  | consulted _ hreferences hhistory =>
    have hnote := s.sameAt_note .consulted hne
    refine ⟨by rw [hreferences], fun n => ?_⟩
    rw [Proxy.times, hhistory]
    exact hnote.2 n
  | bound _ _ hs =>
    refine hs ▸ ⟨if_neg ?_, fun _ => rfl⟩
    rintro ⟨rfl, rfl⟩
    exact hne ⟨rfl, rfl⟩
  | failed _ hs => exact hs ▸ s.sameAt_note .failed hne

theorem seen_forget {c' : ChannelId} {name' : Bytes} {seen : Option ReferenceRecord}
    (h : s.references c name = seen ∨ s.references c name = none) :
    (s.forget c' name').references c name = seen ∨
      (s.forget c' name').references c name = none := by
  rw [Proxy.forget]
  dsimp only
  split
  · exact .inr rfl
  · exact h

/-- Only the fetch behind the lock rebinds the reference. -/
theorem Move.seen {raw : Bool} {stage stage' : Stage} {seen : Option ReferenceRecord}
    (hmove : Move service c name raw e s stage s' stage') (hbehind : stage.consults = false)
    (h : s.references c name = seen ∨ s.references c name = none) :
    s'.references c name = seen ∨ s'.references c name = none := by
  cases hmove with
  | quiet hreferences => rwa [hreferences]
  | missing _ hs => exact hs ▸ h
  | stale _ _ _ hs => exact hs ▸ h
  | consulted _ hreferences => rwa [hreferences]
  | bound hstage =>
    rw [hstage] at hbehind
    cases hbehind
  | failed _ hs => exact hs ▸ h

variable [DecidableEq ι]

theorem fetchStep_move {raw : Bool} {stage stage' : Stage}
    (h : fetchStep service i c name raw stage e s = some (s', stage')) :
    Move service c name raw e s stage s' stage' := by
  cases stage with
  | judge seen =>
    cases e with
    | judge now found =>
      rw [fetchStep] at h
      split at h <;> cases h <;> exact .quiet rfl rfl rfl rfl rfl (by rintro _ _ ⟨⟩)
    | leave =>
      cases h
      exact .quiet rfl rfl rfl rfl rfl (by rintro _ _ ⟨⟩)
    | _ => cases h
  | lock l =>
    cases e with
    | next =>
      obtain ⟨m, -, heq⟩ := Option.map_eq_some_iff.mp h
      cases heq
      exact .quiet rfl rfl rfl rfl rfl (by rintro _ _ ⟨⟩)
    | leave =>
      cases h
      exact .quiet rfl rfl rfl rfl rfl (by rintro _ _ ⟨⟩)
    | _ => cases h
  | reread l =>
    cases e with
    | next =>
      cases h
      refine .quiet rfl rfl rfl rfl rfl ?_
      rintro _ _ ⟨⟩
      rfl
    | leave =>
      cases h
      exact .quiet rfl rfl rfl rfl rfl (by rintro _ _ ⟨⟩)
    | _ => cases h
  | rejudge l seen =>
    cases e with
    | judge now found =>
      rw [fetchStep] at h
      split at h
      · cases h
        exact .quiet rfl rfl rfl rfl rfl (by rintro _ _ ⟨⟩)
      · cases h
        exact .missing rfl rfl rfl
      · rename_i hstale
        cases h
        refine .stale rfl rfl ?_ rfl rfl
        unfold freshOutcome at hstale
        split at hstale
        · assumption
        · split at hstale <;> cases hstale
    | leave =>
      cases h
      exact .quiet rfl rfl rfl rfl rfl (by rintro _ _ ⟨⟩)
    | _ => cases h
  | acquire l seen =>
    cases e with
    | next =>
      rw [fetchStep] at h
      split at h <;> cases h
      · exact .consulted rfl rfl rfl rfl
      · exact .quiet rfl rfl rfl rfl rfl (by rintro _ _ ⟨⟩)
    | _ => cases h
  | upstream l seen =>
    cases e with
    | revalidate now =>
      obtain ⟨record, -, heq⟩ := Option.map_eq_some_iff.mp h
      cases heq
      exact .bound rfl rfl rfl (.inl rfl)
    | store a now etag lastModified =>
      cases h
      exact .bound rfl rfl rfl (.inr rfl)
    | leave =>
      cases h
      exact .failed rfl rfl rfl
    | _ => cases h
  | returned => cases e <;> cases h
  | _ => cases e <;> cases h <;> exact .quiet rfl rfl rfl rfl rfl (by rintro _ _ ⟨⟩)

/-- A call starts, or a fetch takes its next step. -/
theorem fire_call (h : p.fire service (.call i e) = some p') :
    (∀ j, j ≠ i → p'.task j = p.task j) ∧
      ((p'.shared = p.shared ∧ p.task i = .idle ∧
        ∃ c name raw, p'.task i = .fetch c name raw .resolve) ∨
      ∃ c name raw stage stage', p.task i = .fetch c name raw stage ∧
        p'.task i = .fetch c name raw stage' ∧
        Move service c name raw e p.shared stage p'.shared stage') := by
  obtain ⟨hown, hother⟩ := Pool.fire_eq_some h
  refine ⟨hother, ?_⟩
  cases ht : p.task i with
  | idle =>
    rw [ht] at hown
    cases e with
    | start c name raw =>
      obtain ⟨hs, hti⟩ := Prod.mk.inj (Option.some.inj hown)
      exact .inl ⟨hs.symm, rfl, c, name, raw, hti.symm⟩
    | _ => cases hown
  | fetch c name raw stage =>
    rw [ht] at hown
    obtain ⟨⟨s', stage'⟩, hfetch, heq⟩ := Option.map_eq_some_iff.mp hown
    obtain ⟨rfl, hti⟩ := Prod.mk.inj heq
    exact .inr ⟨c, name, raw, stage, stage', rfl, hti.symm, fetchStep_move hfetch⟩

/-! ## What a fetch has read -/

/-- Behind the lock, what a fetch has read is what the reference is, unless it was removed. -/
def Seen (p : Fetches ι) : Prop :=
  ∀ i c name raw l seen, p.task i = .fetch c name raw (.rejudge l seen) →
    p.shared.references c name = seen ∨ p.shared.references c name = none

theorem seen_of_reach {G : Fetches ι → Action ι → Prop}
    (h : (fetches service ι concurrency).Reach G p) : Seen p := by
  refine h.invariant_of_reach ?_ fun x a y hx hseen _ hstep => ?_
  · rintro _ ⟨references, rfl⟩ i c name raw l seen ht
    cases ht
  · intro j c name raw l seen ht
    cases a with
    | forget c' name' =>
      cases hstep
      exact seen_forget (hseen j c name raw l seen ht)
    | call i e =>
      obtain ⟨hother, ⟨hs, -, c', name', raw', hti⟩ |
        ⟨c', name', raw', stage, stage', hi, hti, hmove⟩⟩ := fire_call hstep
      · by_cases hj : j = i
        · subst hj
          rw [hti] at ht
          cases ht
        · rw [hother j hj] at ht
          exact hs ▸ hseen j c name raw l seen ht
      · by_cases hj : j = i
        · subst hj
          rw [hti] at ht
          cases ht
          cases hmove with
          | quiet hreferences _ _ _ _ hnow => exact .inl (by rw [hreferences, hnow l seen rfl])
          | missing _ _ hstage' => cases hstage'
          | stale _ _ _ _ hstage' => cases hstage'
          | consulted _ _ _ hstage' => cases hstage'
          | bound _ _ _ hstage' =>
            rcases hstage' with hstage' | hstage'
            · cases hstage'
            · cases hstage'
          | failed _ _ hstage' => cases hstage'
        · rw [hother j hj] at ht
          have hold := hseen j c name raw l seen ht
          by_cases hcoord : c' = c ∧ name' = name
          · obtain ⟨rfl, rfl⟩ := hcoord
            refine hmove.seen (Bool.eq_false_iff.mpr fun hconsults => ?_) hold
            cases stage with
            | upstream l' seen' =>
              exact hj (behind_unique hx (behind_of_stage ht rfl) (behind_of_stage hi rfl))
            | _ => cases hconsults
          · rw [(hmove.sameAt hcoord).1]
            exact hold

end Accounts

/-! ## The account of a coordinate -/

section Window

variable {U ι : Type} {service : ProxyService U} {i : ι} {e : Event} {s s' : Proxy ι}
  {c : ChannelId} {name : Bytes} {x y : Fetches ι} {t₀ : UInt64} {owed paid : Nat}

/-- The fetches of the coordinate that did not refresh it, the bodies that were gone, and the
removals of the reference. -/
def Proxy.excused (s : Proxy ι) (c : ChannelId) (name : Bytes) : Nat :=
  s.times c name .failed + s.times c name .missing + s.times c name .forgotten

/-- The reference has been bound since `t₀`. -/
def Proxy.Recent (s : Proxy ι) (t₀ : UInt64) (c : ChannelId) (name : Bytes) : Prop :=
  ∃ record, s.references c name = some record ∧ t₀ ≤ record.updatedAt

/-- A fetch of the coordinate is about to take a permit. -/
def Acquiring (p : Fetches ι) (c : ChannelId) (name : Bytes) : Prop :=
  ∃ i raw stage, p.task i = .fetch c name raw stage ∧ stage.acquires = true

/-- A fetch of the coordinate consults the upstream, and has not rebound the reference. -/
def Consulting (p : Fetches ι) (c : ChannelId) (name : Bytes) : Prop :=
  ∃ i raw stage, p.task i = .fetch c name raw stage ∧ stage.consults = true

/-- What the clock reads is at least `t₀` and less than one TTL later. -/
def Within (service : ProxyService U) (t₀ : UInt64) (_ : Fetches ι) (a : Action ι) : Prop :=
  ∀ now, a.clock = some now → t₀ ≤ now ∧ saturatingSub now t₀ < service.ttl

/-- The fetches that consulted the upstream are paid for by `paid` and by what excuses them, and there
is one to spare where one more may go. -/
structure Paid (c : ChannelId) (name : Bytes) (t₀ : UInt64) (owed paid : Nat) (p : Fetches ι) :
    Prop where
  budget : p.shared.times c name .consulted + owed ≤ paid + p.shared.excused c name
  spare : (¬ p.shared.Recent t₀ c name ∧ ¬ Consulting p c name) ∨ Acquiring p c name →
    p.shared.times c name .consulted + owed + 1 ≤ paid + p.shared.excused c name

theorem Proxy.SameAt.excused (h : s.SameAt s' c name) :
    s'.excused c name = s.excused c name := by
  rw [Proxy.excused, h.2, h.2, h.2, Proxy.excused]

theorem Proxy.SameAt.recent {t₀ : UInt64} (h : s.SameAt s' c name) :
    s'.Recent t₀ c name ↔ s.Recent t₀ c name := by
  rw [Proxy.Recent, h.1, Proxy.Recent]

theorem Proxy.excused_note {n : Note} (hn : n ≠ .consulted) :
    (s.note c name n).excused c name = s.excused c name + 1 := by
  cases n with
  | consulted => exact absurd rfl hn
  | _ =>
    simp only [Proxy.excused, Proxy.times_note, reduceCtorEq, if_true, if_false]
    omega

theorem Proxy.consulted_note {n : Note} (hn : n ≠ .consulted) :
    (s.note c name n).times c name .consulted = s.times c name .consulted := by
  rw [Proxy.times_note, if_neg hn, Nat.add_zero]

theorem consulting_of_other (hother : ∀ j, j ≠ i → y.task j = x.task j)
    (hi : ∀ raw stage, x.task i = .fetch c name raw stage → stage.consults = false)
    (h : Consulting x c name) : Consulting y c name := by
  obtain ⟨j, raw, stage, ht, hconsults⟩ := h
  refine ⟨j, raw, stage, ?_, hconsults⟩
  rw [hother j ?_, ht]
  rintro rfl
  rw [hi raw stage ht] at hconsults
  cases hconsults

theorem acquiring_of_other (hother : ∀ j, j ≠ i → y.task j = x.task j)
    (hi : ∀ raw stage, y.task i = .fetch c name raw stage → stage.acquires = false)
    (h : Acquiring y c name) : ∃ j raw stage, j ≠ i ∧ x.task j = .fetch c name raw stage ∧
      stage.acquires = true := by
  obtain ⟨j, raw, stage, ht, hacquires⟩ := h
  have hj : j ≠ i := by
    rintro rfl
    rw [hi raw stage ht] at hacquires
    cases hacquires
  exact ⟨j, raw, stage, hj, hother j hj ▸ ht, hacquires⟩

theorem Paid.of_same (h : Paid c name t₀ owed paid x) (hsame : x.shared.SameAt y.shared c name)
    (hconsulting : Consulting x c name → Consulting y c name)
    (hacquiring : Acquiring y c name → Acquiring x c name) : Paid c name t₀ owed paid y := by
  refine ⟨?_, fun hmore => ?_⟩
  · rw [hsame.2, hsame.excused]
    exact h.budget
  · rw [hsame.2, hsame.excused]
    refine h.spare (hmore.imp (fun hnone => ⟨?_, fun hx => hnone.2 (hconsulting hx)⟩) hacquiring)
    exact fun hrecent => hnone.1 (hsame.recent.mpr hrecent)

/-- What excuses a fetch pays for the next. -/
theorem Paid.excuse (h : Paid c name t₀ owed paid x)
    (hconsulted : y.shared.times c name .consulted = x.shared.times c name .consulted)
    (hexcused : y.shared.excused c name = x.shared.excused c name + 1) :
    Paid c name t₀ owed paid y := by
  have hbudget := h.budget
  exact ⟨by omega, fun _ => by omega⟩

variable [DecidableEq ι] {concurrency : Nat}

/-- A reference bound within the window is fresh throughout. -/
theorem fresh_of_recent {t₀ now : UInt64} {record : ReferenceRecord}
    (hnow : saturatingSub now t₀ < service.ttl) (hrecord : t₀ ≤ record.updatedAt) :
    service.fresh now record = true := by
  refine decide_eq_true (UInt64.lt_iff_toNat_lt.mpr ?_)
  have hnow := UInt64.lt_iff_toNat_lt.mp hnow
  have hrecord := UInt64.le_iff_toNat_le.mp hrecord
  rw [toNat_saturatingSub] at hnow ⊢
  omega

/-- No other fetch consults the upstream while one is behind the lock. -/
theorem not_acquiring {G : Fetches ι → Action ι → Prop}
    (hx : (fetches service ι concurrency).Reach G x)
    (hother : ∀ j, j ≠ i → y.task j = x.task j)
    (hbehind : (x.task i).behind = some (requestKey c name))
    (hi : ∀ raw stage, y.task i = .fetch c name raw stage → stage.acquires = false) :
    ¬ Acquiring y c name := by
  intro hacquiring
  obtain ⟨j, raw, stage, hj, ht, hacquires⟩ := acquiring_of_other hother hi hacquiring
  cases stage with
  | acquire l seen => exact hj (behind_unique hx (behind_of_stage ht rfl) hbehind)
  | _ => cases hacquires

theorem Paid.forget (h : Paid c name t₀ owed paid x) {c' : ChannelId} {name' : Bytes}
    (hstep : x.fire service (.forget c' name') = some y) : Paid c name t₀ owed paid y := by
  cases hstep
  by_cases hcoord : c' = c ∧ name' = name
  · obtain ⟨rfl, rfl⟩ := hcoord
    exact h.excuse (Proxy.consulted_note (by decide)) (Proxy.excused_note (by decide))
  · obtain ⟨-, hnote⟩ := (x.shared.forget c' name').sameAt_note .forgotten hcoord
    refine h.of_same ⟨if_neg fun hc => hcoord ⟨hc.1.symm, hc.2.symm⟩, hnote⟩ id id

/-- A fetch of the coordinate takes its next step. -/
theorem Paid.move {G : Fetches ι → Action ι → Prop} (h : Paid c name t₀ owed paid x)
    (hx : (fetches service ι concurrency).Reach G x) (hother : ∀ j, j ≠ i → y.task j = x.task j)
    (hwithin : ∀ now, e.clock = some now → t₀ ≤ now ∧ saturatingSub now t₀ < service.ttl)
    {raw : Bool} {stage stage' : Stage} (hi : x.task i = .fetch c name raw stage)
    (hi' : y.task i = .fetch c name raw stage')
    (hmove : Move service c name raw e x.shared stage y.shared stage') :
    Paid c name t₀ owed paid y := by
  have hnot : ∀ {stage₀ : Stage}, y.task i = .fetch c name raw stage₀ →
      stage₀.acquires = false → ∀ raw' stage₁, y.task i = .fetch c name raw' stage₁ →
        stage₁.acquires = false := by
    intro stage₀ h₀ hacquires raw' stage₁ h₁
    rw [h₀] at h₁
    cases h₁
    exact hacquires
  cases hmove with
  | quiet hreferences hhistory hconsults _ hacquires' =>
    have hsame : x.shared.SameAt y.shared c name :=
      ⟨by rw [hreferences], fun n => by rw [Proxy.times, hhistory, Proxy.times]⟩
    refine h.of_same hsame (consulting_of_other hother fun raw' stage₀ h₀ => ?_) fun hacquiring => ?_
    · rw [hi] at h₀
      cases h₀
      exact hconsults
    · obtain ⟨j, raw', stage₀, -, ht, hacquires⟩ :=
        acquiring_of_other hother (hnot hi' hacquires') hacquiring
      exact ⟨j, raw', stage₀, ht, hacquires⟩
  | missing _ hs =>
    exact h.excuse (hs ▸ Proxy.consulted_note (by decide)) (hs ▸ Proxy.excused_note (by decide))
  | failed _ hs =>
    exact h.excuse (hs ▸ Proxy.consulted_note (by decide)) (hs ▸ Proxy.excused_note (by decide))
  | @stale l seen now hstage hclock hstale hs =>
    subst hstage
    obtain ⟨-, hnow⟩ := hwithin now hclock
    have hbehind := behind_of_stage hi rfl
    -- what the fetch has read is the reference, which would be fresh
    have hrecent : ¬ x.shared.Recent t₀ c name := by
      rintro ⟨record, hrecord, hbound⟩
      rcases seen_of_reach hx i c name raw l seen hi with hseen | hnone
      · rw [← hseen, hrecord, Option.filter_some, fresh_of_recent hnow hbound] at hstale
        cases hstale
      · rw [hnone] at hrecord
        cases hrecord
    have hconsulting : ¬ Consulting x c name := by
      rintro ⟨j, raw', stage₀, ht, hconsults⟩
      cases stage₀ with
      | upstream l' seen' =>
        obtain rfl := behind_unique hx (behind_of_stage ht rfl) hbehind
        rw [hi] at ht
        cases ht
      | _ => cases hconsults
    refine ⟨?_, fun _ => ?_⟩
    · rw [hs]
      exact h.budget
    · rw [hs]
      exact h.spare (.inl ⟨hrecent, hconsulting⟩)
  | consulted hstage hreferences hhistory hstage' =>
    subst hstage
    subst hstage'
    have hspare := h.spare (.inr ⟨i, raw, _, hi, rfl⟩)
    have hconsulted : y.shared.times c name .consulted = x.shared.times c name .consulted + 1 := by
      rw [Proxy.times, hhistory, List.count_cons_self, Proxy.times]
    have hexcused : y.shared.excused c name = x.shared.excused c name := by
      simp [Proxy.excused, Proxy.times, hhistory]
    refine ⟨by omega, fun hmore => ?_⟩
    rcases hmore with ⟨-, hnone⟩ | hacquiring
    · exact absurd ⟨i, raw, _, hi', rfl⟩ hnone
    · exact absurd hacquiring (not_acquiring hx hother (behind_of_stage hi rfl) (hnot hi' rfl))
  | @bound l seen record hstage hclock hs hstage' =>
    subst hstage
    obtain ⟨hbound, -⟩ := hwithin record.updatedAt hclock
    have hacquires' : stage'.acquires = false := by
      rcases hstage' with rfl | rfl
      · rfl
      · rfl
    have hrecent : y.shared.Recent t₀ c name := by
      refine ⟨record, ?_, hbound⟩
      rw [hs]
      exact if_pos ⟨rfl, rfl⟩
    refine ⟨?_, fun hmore => ?_⟩
    · rw [hs]
      exact h.budget
    · rcases hmore with ⟨hnone, -⟩ | hacquiring
      · exact absurd hrecent hnone
      · exact absurd hacquiring
          (not_acquiring hx hother (behind_of_stage hi rfl) (hnot hi' hacquires'))

theorem Paid.step {G : Fetches ι → Action ι → Prop} (h : Paid c name t₀ owed paid x)
    (hx : (fetches service ι concurrency).Reach G x) {a : Action ι} (ha : Within service t₀ x a)
    (hstep : x.fire service a = some y) : Paid c name t₀ owed paid y := by
  cases a with
  | forget c' name' => exact h.forget hstep
  | call i e =>
    obtain ⟨hother, ⟨hs, hi, c', name', raw', hi'⟩ |
      ⟨c', name', raw', stage, stage', hi, hi', hmove⟩⟩ := fire_call hstep
    · refine h.of_same (hs ▸ ⟨rfl, fun _ => rfl⟩) (consulting_of_other hother ?_) fun hmore => ?_
      · intro raw stage ht
        rw [hi] at ht
        cases ht
      · obtain ⟨j, raw, stage, -, ht, hacquires⟩ := acquiring_of_other hother (i := i) (by
          intro raw stage ht
          rw [hi'] at ht
          cases ht
          rfl) hmore
        exact ⟨j, raw, stage, ht, hacquires⟩
    · by_cases hcoord : c' = c ∧ name' = name
      · obtain ⟨rfl, rfl⟩ := hcoord
        exact h.move hx hother ha hi hi' hmove
      · refine h.of_same (hmove.sameAt hcoord) (consulting_of_other hother ?_) fun hmore => ?_
        · intro raw stage₀ ht
          rw [hi] at ht
          cases ht
          exact absurd ⟨rfl, rfl⟩ hcoord
        · obtain ⟨j, raw, stage₀, -, ht, hacquires⟩ := acquiring_of_other hother (i := i) (by
            intro raw stage₀ ht
            rw [hi'] at ht
            cases ht
            exact absurd ⟨rfl, rfl⟩ hcoord) hmore
          exact ⟨j, raw, stage₀, ht, hacquires⟩

/-! ## The permits -/

/-- A call holds a permit from `try_acquire_owned` until it drops. -/
def holdsPermit : Flight.Call → Bool
  | .fetch _ _ (.upstream _) | .fetch _ _ (.dropPermit _) => true
  | _ => false

/-- Every permit is free or held by one call. -/
def Permitted (concurrency : Nat) (p : Calls ι) : Prop :=
  ∃ F : Finset ι, (∀ i, i ∈ F ↔ holdsPermit (p.task i) = true) ∧
    F.card + p.shared.permits = concurrency

theorem lookup_permits (s : Requests ι) (k : Bytes) (i : ι) :
    (s.lookup k i).1.permits = s.permits := by
  unfold Requests.lookup
  split <;> rfl

theorem removeIf_permits (s : Requests ι) (k : Bytes) : (s.removeIf k).permits = s.permits := by
  unfold Requests.removeIf
  split
  · split <;> rfl
  · rfl

/-- A step takes a permit, gives one back, or leaves them. -/
theorem step_permits {i : ι} {e : Flight.Event} {s s' : Requests ι} {t t' : Flight.Call}
    (h : Flight.Call.step i e s t = some (s', t')) :
    (s'.permits = s.permits ∧ holdsPermit t' = holdsPermit t) ∨
      (s.permits = s'.permits + 1 ∧ holdsPermit t = false ∧ holdsPermit t' = true) ∨
      (s'.permits = s.permits + 1 ∧ holdsPermit t = true ∧ holdsPermit t' = false) := by
  cases t with
  | idle =>
    cases e with
    | start c name =>
      cases h
      exact .inl ⟨rfl, rfl⟩
    | _ => cases h
  | fetch c name stage =>
    obtain ⟨⟨x, stage'⟩, hstep, heq⟩ := Option.map_eq_some_iff.mp h
    cases heq
    cases stage with
    | entry =>
      cases e <;> cases hstep
      exact .inl ⟨lookup_permits .., rfl⟩
    | lock l =>
      cases e with
      | next =>
        obtain ⟨m, -, heq⟩ := Option.map_eq_some_iff.mp hstep
        cases heq
        exact .inl ⟨rfl, rfl⟩
      | leave =>
        cases hstep
        exact .inl ⟨rfl, rfl⟩
      | _ => cases hstep
    | acquire l =>
      cases e with
      | next =>
        rw [Flight.fetchStep] at hstep
        split at hstep
        · rename_i hpermits
          cases hstep
          exact .inr (.inl ⟨(Nat.sub_add_cancel hpermits).symm, rfl, rfl⟩)
        · cases hstep
          exact .inl ⟨rfl, rfl⟩
      | _ => cases hstep
    | dropPermit l =>
      cases e <;> cases hstep
      exact .inr (.inr ⟨rfl, rfl, rfl⟩)
    | dropFlight l =>
      cases e <;> cases hstep
      exact .inl ⟨removeIf_permits .., rfl⟩
    | _ => cases e <;> cases hstep <;> exact .inl ⟨rfl, rfl⟩

theorem Permitted.step {p p' : Calls ι} (h : Permitted concurrency p) {a : Flight.Action ι}
    (hstep : p.fire a = some p') : Permitted concurrency p' := by
  obtain ⟨F, hF, hcard⟩ := h
  obtain ⟨hown, hother⟩ := Pool.fire_eq_some hstep
  have hrest : ∀ j, j ≠ a.thread → (j ∈ F ↔ holdsPermit (p'.task j) = true) := fun j hj => by
    rw [hother j hj]
    exact hF j
  rcases step_permits hown with ⟨hpermits, hsame⟩ | ⟨hpermits, hfree, hheld⟩ |
    ⟨hpermits, hheld, hfree⟩
  · refine ⟨F, fun j => ?_, by rwa [hpermits]⟩
    by_cases hj : j = a.thread
    · rw [hj, hsame]
      exact hF a.thread
    · exact hrest j hj
  · have hnot : a.thread ∉ F := fun hmem => by
      rw [hF, hfree] at hmem
      cases hmem
    refine ⟨insert a.thread F, fun j => ?_, by rw [Finset.card_insert_of_notMem hnot]; omega⟩
    by_cases hj : j = a.thread
    · simp [hj, hheld]
    · rw [Finset.mem_insert, ← hrest j hj]
      exact or_iff_right hj
  · have hmem : a.thread ∈ F := (hF _).mpr hheld
    refine ⟨F.erase a.thread, fun j => ?_, ?_⟩
    · by_cases hj : j = a.thread
      · simp [hj, hfree]
      · rw [Finset.mem_erase, ← hrest j hj]
        exact and_iff_right hj
    · have := Finset.card_erase_add_one hmem
      omega

theorem permitted_of_reach {G : Fetches ι → Action ι → Prop} {p : Fetches ι}
    (h : (fetches service ι concurrency).Reach G p) : Permitted concurrency p.toCalls := by
  refine h.invariant (I := fun x => Permitted concurrency x.toCalls) ?_ fun x a y hx _ hstep => ?_
  · rintro _ ⟨references, rfl⟩
    exact ⟨∅, fun i => by simp [Fetches.toCalls, Call.toFlight, holdsPermit], Nat.zero_add _⟩
  · rcases toCalls_of_fire hstep with hsame | ⟨b, hb⟩
    · exact hsame ▸ hx
    · exact hx.step hb

/-! ## The herd -/

/-- **One fetch consults the upstream per TTL.** While the clock stays within one revalidation
TTL, however the fetches of a coordinate interleave, one of them takes a permit to consult the
upstream, and one more for each fetch that came back without refreshing it, each time its body
was gone and each removal of its reference. Where it has been bound within the TTL already and no
fetch is past its second look, the first is saved as well. Over all coordinates, never more
fetches than `proxy_concurrency` hold a permit. -/
theorem upstream_once_per_ttl {G : Fetches ι → Action ι → Prop} {p q : Fetches ι}
    (hp : (fetches service ι concurrency).Reach G p)
    (hq : (fetches service ι concurrency).Steps (Within service t₀) p q)
    (c : ChannelId) (name : Bytes) :
    (q.shared.times c name .consulted + p.shared.excused c name ≤
      p.shared.times c name .consulted + 1 + q.shared.excused c name) ∧
    (p.shared.Recent t₀ c name → ¬ Acquiring p c name →
      q.shared.times c name .consulted + p.shared.excused c name ≤
        p.shared.times c name .consulted + q.shared.excused c name) ∧
    {i | holdsPermit (q.task i).toFlight = true}.encard ≤ concurrency := by
  have hrun : ∀ paid, Paid c name t₀ (p.shared.excused c name) paid p →
      Paid c name t₀ (p.shared.excused c name) paid q := fun paid hpaid =>
    hq.preserves_of_reach (fun x a y hx hpaid ha hstep => hpaid.step hx ha hstep)
      (fun _ _ _ => trivial) (hp.mono fun _ _ _ => trivial) hpaid
  refine ⟨?_, fun hrecent hnone => ?_, ?_⟩
  · refine (hrun (p.shared.times c name .consulted + 1) ⟨?_, fun _ => ?_⟩).budget
    · omega
    · omega
  · refine (hrun (p.shared.times c name .consulted) ⟨Nat.le_refl _, fun hmore => ?_⟩).budget
    rcases hmore with ⟨hnot, -⟩ | hacquiring
    · exact absurd hrecent hnot
    · exact absurd hacquiring hnone
  · have hreach : (fetches service ι concurrency).Reach (fun _ _ => True) q :=
      (hp.mono fun _ _ _ => trivial).steps (hq.mono fun _ _ _ => trivial)
    obtain ⟨F, hF, hcard⟩ := permitted_of_reach hreach
    have hsub : {i | holdsPermit (q.task i).toFlight = true} ⊆ (F : Set ι) := fun i hi =>
      Finset.mem_coe.mpr ((hF i).mpr hi)
    refine (Set.encard_mono hsub).trans ?_
    rw [Set.encard_coe_eq_coe_finsetCard]
    exact_mod_cast Nat.le.intro hcard

end Window

/-! ## Two fetches of one coordinate -/

section Sample

open ProxyService

/-- No reference is bound. -/
def cold : Fetches (Fin 2) := ⟨Proxy.new (Fin 2) 1 fun _ _ => none, fun _ => .idle⟩

def within (t₀ : UInt64) (a : Action (Fin 2)) : Bool :=
  a.clock.all fun now => decide (t₀ ≤ now ∧ saturatingSub now t₀ < sampleService.ttl)

/-- A fetch starts, finds nothing and asks for the lock. -/
def arrive (i : Fin 2) (now : UInt64) : List (Action (Fin 2)) :=
  [.call i (.start .default [97] true), .call i .next, .call i (.judge now false), .call i .next]

/-- The first fetch takes the lock, looks again, consults the upstream, binds the reference and
drops what it holds. -/
def refresh (i : Fin 2) (now : UInt64) : List (Action (Fin 2)) :=
  [.call i .next, .call i .next, .call i (.judge now false), .call i .next,
    .call i (.store ⟨digestOfNat 1⟩ now none none)] ++ List.replicate 4 (.call i .next)

/-- Both fetches find nothing; the second waits for the first and is answered from the
cache, so that one consults the upstream. -/
theorem herd_answered : ∃ q : Fetches (Fin 2),
    (fetches sampleService (Fin 2) 1).Steps (Within sampleService 1000) cold q ∧
    q.task 1 = .fetch .default [97] true (.dropGuard 0) ∧
    q.shared.excused .default [97] = 0 ∧ q.shared.times .default [97] .consulted = 1 := by
  have hrun : (System.exec (Fetches.fire sampleService) (fun _ => within 1000) cold
      (arrive 0 1000 ++ arrive 1 1001 ++ refresh 0 1002 ++
        [.call 1 .next, .call 1 .next, .call 1 (.judge 1200 true)])).any (fun q =>
      decide (q.task 1 = .fetch .default [97] true (.dropGuard 0)) &&
      decide (q.shared.excused .default [97] = 0) &&
      decide (0 < q.shared.times .default [97] .consulted)) = true := by
    decide
  obtain ⟨q, hq, hcheck⟩ := (Option.any_eq_true _ _).mp hrun
  have hsteps : (fetches sampleService (Fin 2) 1).Steps (Within sampleService 1000) cold q := by
    refine System.steps_of_exec (fun _ _ _ hfire => hfire) (fun _ a ha now hnow => ?_) hq
    rw [within, hnow] at ha
    exact of_decide_eq_true ha
  simp only [Bool.and_eq_true, decide_eq_true_eq] at hcheck
  obtain ⟨⟨htask, hexcused⟩, hconsulted⟩ := hcheck
  have hstart : (fetches sampleService (Fin 2) 1).Reach (fun _ _ => True) cold :=
    ⟨cold, ⟨_, rfl⟩, Relation.ReflTransGen.refl⟩
  obtain ⟨honce, -, -⟩ := upstream_once_per_ttl hstart hsteps .default [97]
  have hbefore : cold.shared.times .default [97] .consulted = 0 := rfl
  exact ⟨q, hsteps, htask, hexcused, by omega⟩

end Sample

end Flywheel.Herd
