import Flywheel.Shard.References
import Flywheel.Shard.Sample

/-!
# The build-cache routes (`transport/http/mod.rs`)

Generic HTTP clients and Bazel's action cache store bodies under keys that they may
overwrite. A PUT publishes the body under its digest and binds the reference `build:…` of
its key in the same batch; a GET resolves the reference and then looks the artifact up. A
request is a session on one thread of the shard; its steps interleave with those of all
others, with lookups, maintenance, startup recovery, the reference routes and the proxy's
references, and the process may crash at any point.

A PUT is answered 200 in two cases: its publication committed (`Reply.stored`), or it ran out
of space and was bypassed (`Reply.bypassed`), which leaves the reference as it was. Where the
space comes from is not modelled here: any staging step may run out of it.

- `BuildCache.act`: one step of a request, of other work, or a crash.
- `act_cases`: all steps sorted by what they do to the sessions and to the shard.
- `Sessions`: what a session's state says about its thread's operation.
- `Since`: once a PUT has committed, the reference of its key is only ever bound by that PUT
  or by one that committed after it.
-/

set_option autoImplicit false

namespace Flywheel

open Lib

/-! ## Keys -/

/-- `build_reference`. -/
def buildReference (kind : String) (key : Bytes) : Bytes :=
  ("build:" ++ kind ++ ":").toUTF8.toList ++ key

inductive BuildKey where
  | http (key : Bytes)
  | bazelAc (hash : Bytes)
  deriving DecidableEq

namespace BuildKey

def reference : BuildKey → Bytes
  | .http key => buildReference "http" key
  | .bazelAc hash => buildReference "bazel-ac" hash

/-- What a PUT checks of its key; a GET checks nothing. -/
def isValid : BuildKey → Bool
  | .http key => Reference.isValid key
  | .bazelAc hash => (Digest.parse hash).isSome

/-- The publication of `put_http_cache` and `put_bazel_ac`. -/
def putRequest (key : BuildKey) (c : ChannelId) (contentType : Option String)
    (stream : List Bytes) : PublishRequest where
  channel := c
  target := .contentAddressed (some key.reference)
  contentType := contentType
  stream := stream
  durability := .bestEffort
  encoding := .zstd

theorem reference_eq (key : BuildKey) :
    key.reference = [98, 117, 105, 108, 100, 58] ++
      match key with
      | .http k => [104, 116, 116, 112, 58] ++ k
      | .bazelAc h => [98, 97, 122, 101, 108, 45, 97, 99, 58] ++ h := by
  have hhttp : ("build:" ++ "http" ++ ":").toUTF8.toList =
      [98, 117, 105, 108, 100, 58, 104, 116, 116, 112, 58] := by decide +kernel
  have hbazel : ("build:" ++ "bazel-ac" ++ ":").toUTF8.toList =
      [98, 117, 105, 108, 100, 58, 98, 97, 122, 101, 108, 45, 97, 99, 58] := by decide +kernel
  cases key with
  | http k =>
    rw [reference, buildReference, hhttp]
    rfl
  | bazelAc h =>
    rw [reference, buildReference, hbazel]
    rfl

theorem reference_inj {k k' : BuildKey} (h : k.reference = k'.reference) : k = k' := by
  rw [reference_eq, reference_eq] at h
  have hrest := List.append_cancel_left h
  cases k <;> cases k' <;> simp at hrest ⊢ <;> exact hrest

end BuildKey

/-- The names other routes write: the reference API takes valid references only, and the
proxy's names start with `proxy:`. -/
def otherReference (name : Bytes) : Bool :=
  Reference.isValid name || "proxy:".toUTF8.toList.isPrefixOf name

theorem otherReference_ne {name : Bytes} (h : otherReference name = true) (key : BuildKey) :
    name ≠ key.reference := by
  rintro rfl
  have hproxy : "proxy:".toUTF8.toList = [112, 114, 111, 120, 121, 58] := by decide +kernel
  rw [otherReference, hproxy, BuildKey.reference_eq] at h
  simp [Reference.isValid, isAsciiAlphanumeric, isAsciiUppercase] at h

/-! ## Replies -/

/-- The cases of `CacheError` that the upload routes tell apart. -/
inductive UploadError where
  | outOfSpace
  | digestMismatch
  | tooLarge
  | channelDeleting
  | missingChannel
  | other
  deriving DecidableEq

inductive Reply where
  /-- A PUT whose publication returned `Ok`. -/
  | stored
  /-- A PUT that ran out of space. -/
  | bypassed
  /-- A GET whose lookup found the record and opened the file. -/
  | hit (artifact : ArtifactId) (metadata : ArtifactMetadata) (file : Bytes)
  | refused (status : Nat)
  deriving DecidableEq

def Reply.status : Reply → Nat
  | .stored | .bypassed | .hit _ _ _ => 200
  | .refused status => status

def cacheWriteFailure : UploadError → Nat
  | .outOfSpace => 507
  | .digestMismatch => 409
  | .tooLarge => 413
  | .channelDeleting | .missingChannel => 404
  | .other => 500

def cacheWriteFailureWithBypass : UploadError → Reply
  | .outOfSpace => .bypassed
  | error => .refused (cacheWriteFailure error)

/-- The errors that the step at a program counter may end a publication with. -/
def PublishPc.raises : PublishPc → UploadError → Bool
  -- the reservation up front
  | .stageDir, .outOfSpace => true
  -- its extensions while the stream comes in, and for the encoded length at the end
  | .stageWrite, .outOfSpace | .stageSync, .outOfSpace => true
  | .stageWrite, .tooLarge => true
  | .fenceCheck _ _, .channelDeleting | .fenceCheck _ _, .missingChannel => true
  | .publishDir _, .digestMismatch => true
  | _, .other => true
  | _, _ => false

/-- The publication has failed; it may still have to discard what it staged. -/
def Task.failing : Task → Bool
  | .publish _ .discard | .publish _ (.discardLocked _) | .done .failed => true
  | _ => false

/-- The error a PUT will be answered with, after a step of its publication from `t` to
`t'`; `none` if the step cannot raise `error`. -/
def noteError (t t' : Task) (noted : Option UploadError) (error : UploadError) :
    Option (Option UploadError) :=
  if t'.failing && !t.failing then
    match t with
    | .publish _ pc => if pc.raises error then some (some error) else none
    | _ => none
  else some noted

/-- What the client has received once it has undone the content encoding. A zstd frame is
passed through to a client that accepts it, and decoded up to the recorded length for
others. -/
def clientBody {ι : Type} (E : Env ι) (acceptsZstd : Bool) (m : ArtifactMetadata) (file : Bytes) :
    Option Bytes :=
  match m.encoding with
  | .zstd =>
    if acceptsZstd then E.zstdDecode file
    else (E.zstdDecode file).map fun body => body.take m.contentLen
  | .identity => some (file.take m.contentLen)

/-! ## Sessions -/

/-- What the thread of a request is doing. -/
inductive Session where
  | idle
  | putting (c : ChannelId) (key : BuildKey) (error : Option UploadError)
  | resolving (c : ChannelId) (key : BuildKey)
  | serving (c : ChannelId) (key : BuildKey) (artifact : ArtifactId)
  | answered (c : ChannelId) (key : BuildKey) (reply : Reply)
  /-- The thread does something else than build-cache requests. -/
  | other
  /-- The process died before it answered. -/
  | lost
  deriving DecidableEq

/-- The request has not been answered yet, or not even made. -/
def Session.isOpen : Session → Bool
  | .idle | .putting _ _ _ | .resolving _ _ | .serving _ _ _ => true
  | _ => false

def Session.crash : Session → Session
  | .idle => .idle
  | .answered c key reply => .answered c key reply
  | _ => .lost

structure BuildCache (ι : Type) where
  shard : Shard ι
  session : ι → Session

/-- `permit` says whether `acquire_foreground` finds a free slot. -/
inductive BuildAction (ι : Type) where
  | put (i : ι) (c : ChannelId) (key : BuildKey) (contentType : Option String)
    (stream : List Bytes) (permit : Bool)
  | get (i : ι) (c : ChannelId) (key : BuildKey) (permit : Bool)
  /-- The GET reads its reference, or fails to. -/
  | resolve (i : ι) (ok permit : Bool)
  /-- The request's own operation takes a step. -/
  | run (i : ι) (e : Event) (error : UploadError)
  | answer (i : ι)
  | other (i : ι) (e : Event)
  | crash

/-- What may run beside the build-cache requests. -/
def Op.isOther : Op → Bool
  | .publish _ | .delete _ _ | .resume _ => false
  | .reference _ name _ => otherReference name
  | _ => true

def Event.isOther : Event → Bool
  | .start op => op.isOther
  | _ => true

def Event.isStart : Event → Bool
  | .start _ => true
  | _ => false

namespace BuildCache

variable {ι : Type} [DecidableEq ι]

def fresh (ι : Type) (expirySeconds now : UInt64) : BuildCache ι :=
  ⟨Shard.fresh ι expirySeconds now, fun _ => .idle⟩

variable (E : Env ι) (x : BuildCache ι) (i : ι)

def setSession (session : Session) : BuildCache ι :=
  { x with session := Function.update x.session i session }

def reply (c : ChannelId) (key : BuildKey) (reply : Reply) : BuildCache ι :=
  x.setSession i (.answered c key reply)

/-- Thread `i` of the shard takes a step, and its session moves on. -/
def fire (e : Event) (session : Session) : Option (BuildCache ι) :=
  (x.shard.fire E i e).map fun p => ⟨p, Function.update x.session i session⟩

/-- `put_http_cache` and `put_bazel_ac` up to their call of `publish`. -/
def put (c : ChannelId) (key : BuildKey) (contentType : Option String) (stream : List Bytes)
    (permit : Bool) : Option (BuildCache ι) :=
  match x.session i with
  | .idle =>
    if !key.isValid then some (x.reply i c key (.refused 400))
    else if !permit then some (x.reply i c key (.refused 429))
    else x.fire E i (.start (.publish (key.putRequest c contentType stream))) (.putting c key none)
  | _ => none

/-- `get_http_cache` and `get_bazel_ac`. -/
def get (c : ChannelId) (key : BuildKey) (permit : Bool) : Option (BuildCache ι) :=
  match x.session i with
  | .idle =>
    if !permit then some (x.reply i c key (.refused 429))
    else some (x.setSession i (.resolving c key))
  | _ => none

/-- `serve_reference_artifact`, with the second permit of `serve_artifact`. -/
def resolve (ok permit : Bool) : Option (BuildCache ι) :=
  match x.session i with
  | .resolving c key =>
    if !ok then some (x.reply i c key (.refused 500))
    else
      match x.shard.shared.reference c key.reference with
      | none => some (x.reply i c key (.refused 404))
      | some record =>
        if !permit then some (x.reply i c key (.refused 429))
        else x.fire E i (.start (.locate c record.artifact)) (.serving c key record.artifact)
  | _ => none

def run (e : Event) (error : UploadError) : Option (BuildCache ι) :=
  if e.isStart then none
  else
    match x.session i with
    | .putting c key noted =>
      (x.shard.fire E i e).bind fun p =>
        (noteError (x.shard.task i) (p.task i) noted error).map fun noted =>
          ⟨p, Function.update x.session i (.putting c key noted)⟩
    | .serving c key a => x.fire E i e (.serving c key a)
    | _ => none

/-- The ends of the handlers. -/
def answer : Option (BuildCache ι) :=
  match x.session i, x.shard.task i with
  | .putting c key _, .done (.published _ _) => some (x.reply i c key .stored)
  | .putting c key noted, .done .failed =>
    some (x.reply i c key (cacheWriteFailureWithBypass (noted.getD .other)))
  | .serving c key a, .done (.located _ _ (some (m, f))) => some (x.reply i c key (.hit a m f))
  | .serving c key _, .done (.located _ _ none) => some (x.reply i c key (.refused 404))
  | .serving c key _, .done .failed => some (x.reply i c key (.refused 500))
  | _, _ => none

def other (e : Event) : Option (BuildCache ι) :=
  match x.session i with
  | .idle | .other => if e.isOther then x.fire E i e .other else none
  | _ => none

def act : BuildAction ι → Option (BuildCache ι)
  | .put i c key contentType stream permit => x.put E i c key contentType stream permit
  | .get i c key permit => x.get i c key permit
  | .resolve i ok permit => x.resolve E i ok permit
  | .run i e error => x.run E i e error
  | .answer i => x.answer i
  | .other i e => x.other E i e
  | .crash => some ⟨x.shard.crash, fun i => (x.session i).crash⟩

end BuildCache

def buildCache {ι : Type} [DecidableEq ι] (E : Env ι) : System (BuildCache ι) (BuildAction ι) where
  init x := ∃ expirySeconds now, x = BuildCache.fresh ι expirySeconds now
  step x a y := x.act E a = some y

/-! ## One step -/

section Steps

variable {ι : Type}

/-- Every PUT uploads a body from `S`. -/
def Uploads (S : Set Bytes) (_ : BuildCache ι) : BuildAction ι → Prop
  | .put _ _ _ _ stream _ => stream.flatten ∈ S
  | _ => True

/-- The publication of a PUT of a body from `S` to the key. -/
def PublishRequest.Puts (S : Set Bytes) (c : ChannelId) (key : BuildKey) (r : PublishRequest) :
    Prop :=
  ∃ contentType stream, r = key.putRequest c contentType stream ∧ stream.flatten ∈ S

/-- How a session moves while the shard stands still. -/
def Session.Quiet (x : BuildCache ι) (i : ι) : Session → Prop
  | .resolving _ _ => x.session i = .idle
  | .answered c key reply =>
    match reply with
    | .stored => ∃ noted r created,
        x.session i = .putting c key noted ∧ x.shard.task i = .done (.published r created)
    | .hit a m f => x.session i = .serving c key a ∧
        ∃ c' a', x.shard.task i = .done (.located c' a' (some (m, f)))
    | .bypassed | .refused _ => (x.session i).isOpen = true
  | _ => False

/-- How a session moves with the step that `e` resolves of its thread. -/
def Session.Fires (S : Set Bytes) (x : BuildCache ι) (i : ι) (e : Event) : Session → Prop
  | .putting c key _ =>
    (x.session i = .idle ∧ ∃ r, r.Puts S c key ∧ e = .start (.publish r)) ∨
      (e.isStart = false ∧ ∃ noted, x.session i = .putting c key noted)
  | .serving c key a =>
    (x.session i = .resolving c key ∧ e = .start (.locate c a) ∧
        ∃ record, x.shard.shared.reference c key.reference = some record ∧ record.artifact = a) ∨
      (e.isStart = false ∧ x.session i = .serving c key a)
  | .other => (x.session i = .idle ∨ x.session i = .other) ∧ e.isOther = true
  | _ => False

variable [DecidableEq ι] {E : Env ι} {S : Set Bytes} {x y : BuildCache ι}

/-- Every step of every request, sorted by what it moves. -/
theorem act_cases {a : BuildAction ι} (ha : Uploads S x a) (h : x.act E a = some y) :
    (∃ i session, y = x.setSession i session ∧ session.Quiet x i) ∨
      (∃ i e p session, x.shard.fire E i e = some p ∧
        y = ⟨p, Function.update x.session i session⟩ ∧ session.Fires S x i e) ∨
      y = ⟨x.shard.crash, fun i => (x.session i).crash⟩ := by
  cases a with
  | put i c key contentType stream permit =>
    simp only [BuildCache.act, BuildCache.put] at h
    split at h
    · rename_i hidle
      split at h
      · cases h
        exact .inl ⟨i, _, rfl, by simp [Session.Quiet, Session.isOpen, hidle]⟩
      · split at h
        · cases h
          exact .inl ⟨i, _, rfl, by simp [Session.Quiet, Session.isOpen, hidle]⟩
        · obtain ⟨p, hp, rfl⟩ := Option.map_eq_some_iff.mp h
          -- Only an admitted request reaches the shard.
          exact .inr (.inl ⟨i, _, p, _, hp, rfl, .inl ⟨hidle, _, ⟨_, _, rfl, ha⟩, rfl⟩⟩)
    · cases h
  | get i c key permit =>
    simp only [BuildCache.act, BuildCache.get] at h
    split at h
    · rename_i hidle
      split at h
      · cases h
        exact .inl ⟨i, _, rfl, by simp [Session.Quiet, Session.isOpen, hidle]⟩
      · cases h
        exact .inl ⟨i, _, rfl, hidle⟩
    · cases h
  | resolve i ok permit =>
    simp only [BuildCache.act, BuildCache.resolve] at h
    split at h
    · rename_i c key hresolving
      split at h
      · cases h
        exact .inl ⟨i, _, rfl, by simp [Session.Quiet, Session.isOpen, hresolving]⟩
      · split at h
        · cases h
          exact .inl ⟨i, _, rfl, by simp [Session.Quiet, Session.isOpen, hresolving]⟩
        · rename_i record hrecord
          split at h
          · cases h
            exact .inl ⟨i, _, rfl, by simp [Session.Quiet, Session.isOpen, hresolving]⟩
          · obtain ⟨p, hp, rfl⟩ := Option.map_eq_some_iff.mp h
            exact .inr (.inl ⟨i, _, p, _, hp, rfl, .inl ⟨hresolving, rfl, record, hrecord, rfl⟩⟩)
    · cases h
  | run i e error =>
    simp only [BuildCache.act, BuildCache.run] at h
    split at h
    · cases h
    · rename_i hstart
      have hnot : e.isStart = false := by simpa using hstart
      split at h
      · rename_i c key noted hputting
        obtain ⟨p, hp, hnoted⟩ := Option.bind_eq_some_iff.mp h
        obtain ⟨noted', -, rfl⟩ := Option.map_eq_some_iff.mp hnoted
        exact .inr (.inl ⟨i, e, p, _, hp, rfl, .inr ⟨hnot, noted, hputting⟩⟩)
      · rename_i c key a hserving
        obtain ⟨p, hp, rfl⟩ := Option.map_eq_some_iff.mp h
        exact .inr (.inl ⟨i, e, p, _, hp, rfl, .inr ⟨hnot, hserving⟩⟩)
      · cases h
  | answer i =>
    simp only [BuildCache.act, BuildCache.answer] at h
    split at h
    · rename_i c key noted r created hputting htask
      cases h
      exact .inl ⟨i, _, rfl, noted, r, created, hputting, htask⟩
    · rename_i c key noted hputting htask
      cases h
      -- A failed write is answered by its error, or bypassed.
      refine .inl ⟨i, _, rfl, ?_⟩
      cases noted.getD .other <;>
        simp [Session.Quiet, Session.isOpen, cacheWriteFailureWithBypass, hputting]
    · rename_i c key a c' a' m f hserving htask
      cases h
      exact .inl ⟨i, _, rfl, hserving, c', a', htask⟩
    · rename_i hserving htask
      cases h
      exact .inl ⟨i, _, rfl, by simp [Session.Quiet, Session.isOpen, hserving]⟩
    · rename_i hserving htask
      cases h
      exact .inl ⟨i, _, rfl, by simp [Session.Quiet, Session.isOpen, hserving]⟩
    · cases h
  | other i e =>
    simp only [BuildCache.act, BuildCache.other] at h
    split at h
    · rename_i hidle
      split at h
      · rename_i hother
        obtain ⟨p, hp, rfl⟩ := Option.map_eq_some_iff.mp h
        exact .inr (.inl ⟨i, e, p, _, hp, rfl, .inl hidle, hother⟩)
      · cases h
    · rename_i hbusy
      split at h
      · rename_i hother
        obtain ⟨p, hp, rfl⟩ := Option.map_eq_some_iff.mp h
        exact .inr (.inl ⟨i, e, p, _, hp, rfl, .inr hbusy, hother⟩)
      · cases h
    · cases h
  | crash =>
    cases h
    exact .inr (.inr rfl)

/-! ## The shard below -/

/-- The publications of runs with bodies from `S`. -/
def PublishRequest.IsPut (S : Set Bytes) (r : PublishRequest) : Prop := ∃ c key, r.Puts S c key

omit [DecidableEq ι] in
theorem fires_only {i : ι} {e : Event} {session : Session} (h : session.Fires S x i e) :
    e.Only (·.IsPut S) (otherReference · = true) := by
  cases session with
  | putting c key noted =>
    rcases h with ⟨-, r, hr, rfl⟩ | ⟨hnot, -⟩
    · exact ⟨c, key, hr⟩
    · cases e with
      | start op => cases hnot
      | _ => trivial
  | serving c key a =>
    rcases h with ⟨-, rfl, -⟩ | ⟨hnot, -⟩
    · trivial
    · cases e with
      | start op => cases hnot
      | _ => trivial
  | other =>
    cases e with
    | start op =>
      cases op with
      | publish r | delete c credential | resume c => cases h.2
      | reference c name op => exact h.2
      | _ => trivial
    | _ => trivial
  | _ => exact h.elim

/-- A run of the routes is a run of the shard. -/
theorem shard_of_reach (h : (buildCache E).Reach (Uploads S) x) :
    (shard E).Reach (Only (·.IsPut S) (otherReference · = true)) x.shard := by
  refine h.invariant (I := fun x =>
    (shard E).Reach (Only (·.IsPut S) (otherReference · = true)) x.shard) ?_ ?_
  · rintro _ ⟨expirySeconds, now, rfl⟩
    exact ⟨_, ⟨expirySeconds, now, rfl⟩, Relation.ReflTransGen.refl⟩
  · intro u a v hu ha hstep
    rcases act_cases ha hstep with ⟨i, session, rfl, -⟩ | ⟨i, e, p, session, hfire, rfl, hfires⟩ |
      rfl
    · exact hu
    · exact hu.tail (a := .thread i e) (fires_only hfires) hfire
    · exact hu.tail (a := .crash) trivial rfl

/-! ## Sessions and their operations -/

def Session.Fits (S : Set Bytes) : Session → Task → Prop
  | .idle, t | .resolving _ _, t => t = .idle
  | .putting c key _, t =>
    (∃ r pc, r.Puts S c key ∧ t = .publish r pc) ∨
      (∃ r created, r.Puts S c key ∧ t = .done (.published r created)) ∨ t = .done .failed
  | .serving c _ a, t =>
    (∃ pc, t = .locate c a pc) ∨ (∃ hit, t = .done (.located c a hit)) ∨ t = .done .failed
  | .answered c key reply, t =>
    match reply with
    | .stored => ∃ r created, r.Puts S c key ∧ t = .done (.published r created)
    | .hit a m f => t = .done (.located c a (some (m, f)))
    | .bypassed | .refused _ => True
  | .other, _ | .lost, _ => True

def Sessions (S : Set Bytes) (x : BuildCache ι) : Prop :=
  ∀ i, (x.session i).Fits S (x.shard.task i)

omit [DecidableEq ι] in
theorem fits_quiet {i : ι} {session : Session} (h : Sessions S x) (hquiet : session.Quiet x i) :
    session.Fits S (x.shard.task i) := by
  have hi := h i
  cases session with
  | resolving c key =>
    rw [show x.session i = .idle from hquiet] at hi
    exact hi
  | answered c key reply =>
    cases reply with
    | stored =>
      obtain ⟨noted, r, created, hputting, htask⟩ := hquiet
      rw [hputting, htask] at hi
      rw [htask]
      rcases hi with ⟨r', pc, -, ht⟩ | ⟨r', created', hr', ht⟩ | ht
      · cases ht
      · cases ht
        exact ⟨r, created, hr', rfl⟩
      · cases ht
    | hit a m f =>
      obtain ⟨hserving, c', a', htask⟩ := hquiet
      rw [hserving, htask] at hi
      rw [htask]
      rcases hi with ⟨pc, ht⟩ | ⟨hit, ht⟩ | ht
      · cases ht
      · cases ht
        rfl
      · cases ht
    | bypassed | refused status => trivial
  | _ => exact hquiet.elim

theorem fits_fire {i : ι} {e : Event} {p : Shard ι} {session : Session} (h : Sessions S x)
    (hfire : x.shard.fire E i e = some p) (hfires : session.Fires S x i e) :
    session.Fits S (p.task i) := by
  have hi := h i
  have hstep := (Shard.fire_eq_some hfire).1
  cases session with
  | putting c key noted =>
    rcases hfires with ⟨hidle, r, hr, rfl⟩ | ⟨-, noted', hputting⟩
    · rw [hidle] at hi
      rw [show x.shard.task i = .idle from hi] at hstep
      obtain ⟨-, htask⟩ := Prod.mk.inj (Option.some.inj hstep)
      exact .inl ⟨r, .stageDir, hr, htask.symm⟩
    · rw [hputting] at hi
      rcases hi with ⟨r, pc, hr, ht⟩ | ⟨r, created, -, ht⟩ | ht
      · rw [ht] at hstep
        rcases publishStep_task hstep with ⟨pc', ht'⟩ | ⟨o, ht'⟩
        · exact .inl ⟨r, pc', hr, ht'⟩
        · rw [ht'] at hstep ⊢
          rcases publishStep_end hstep with ⟨f, found, now, -, rfl, -⟩ | ⟨rfl, -⟩
          · exact .inr (.inl ⟨r, !found, hr, rfl⟩)
          · exact .inr (.inr rfl)
      · rw [ht] at hstep
        cases hstep
      · rw [ht] at hstep
        cases hstep
  | serving c key a =>
    rcases hfires with ⟨hresolving, rfl, -⟩ | ⟨-, hserving⟩
    · rw [hresolving] at hi
      rw [show x.shard.task i = .idle from hi] at hstep
      obtain ⟨-, htask⟩ := Prod.mk.inj (Option.some.inj hstep)
      exact .inl ⟨.read, htask.symm⟩
    · rw [hserving] at hi
      rcases hi with ⟨pc, ht⟩ | ⟨hit, ht⟩ | ht
      · rw [ht] at hstep
        rcases locateStep_task hstep with ⟨pc', ht'⟩ | ⟨o, ht'⟩
        · exact .inl ⟨pc', ht'⟩
        · rw [ht'] at hstep ⊢
          rcases locateStep_end hstep with ⟨-, -, -, rfl⟩ | ⟨m, bytes, -, -, -, rfl⟩ |
            ⟨found, -, rfl, -⟩ | ⟨rfl, -⟩
          · exact .inr (.inl ⟨_, rfl⟩)
          · exact .inr (.inl ⟨_, rfl⟩)
          · exact .inr (.inl ⟨_, rfl⟩)
          · exact .inr (.inr rfl)
      · rw [ht] at hstep
        cases hstep
      · rw [ht] at hstep
        cases hstep
  | other => trivial
  | _ => exact hfires.elim

omit [DecidableEq ι] in
theorem fits_crash {session : Session} {t : Task} (h : session.Fits S t) :
    session.crash.Fits S t.lost := by
  cases session with
  | idle =>
    rw [show t = .idle from h]
    rfl
  | answered c key reply =>
    cases reply with
    | stored =>
      obtain ⟨r, created, hr, rfl⟩ := h
      exact ⟨r, created, hr, rfl⟩
    | hit a m f =>
      rw [show t = .done (.located c a (some (m, f))) from h]
      rfl
    | bypassed | refused status => trivial
  | _ => trivial

theorem sessions_of_reach (h : (buildCache E).Reach (Uploads S) x) : Sessions S x := by
  refine h.invariant ?_ ?_
  · rintro _ ⟨expirySeconds, now, rfl⟩ i
    rfl
  · intro u a v hu ha hstep k
    rcases act_cases ha hstep with ⟨i, session, rfl, hquiet⟩ |
      ⟨i, e, p, session, hfire, rfl, hfires⟩ | rfl
    · by_cases hk : k = i
      · subst hk
        simpa [BuildCache.setSession] using fits_quiet hu hquiet
      · simpa [BuildCache.setSession, hk] using hu k
    · by_cases hk : k = i
      · subst hk
        simpa using fits_fire hu hfire hfires
      · simpa [hk, (Shard.fire_eq_some hfire).2 k hk] using hu k
    · exact fits_crash (hu k)

/-! ## Since a commit -/

/-- An operation that has returned stays returned. -/
theorem done_of_steps (h : (buildCache E).Steps (Uploads S) x y) {k : ι} {o : Outcome}
    (hk : x.shard.task k = .done o) : y.shard.task k = .done o := by
  refine h.preserves (I := fun x => x.shard.task k = .done o) ?_ hk
  intro u a v hu ha hstep
  rcases act_cases ha hstep with ⟨i, session, rfl, -⟩ | ⟨i, e, p, session, hfire, rfl, -⟩ | rfl
  · exact hu
  · exact fire_done hfire hu
  · show (u.shard.task k).lost = .done o
    rw [hu]
    rfl

/-- `a` is what PUT `j` stored, or a PUT that had not returned in `x`. -/
def StoredSince (E : Env ι) (S : Set Bytes) (c : ChannelId) (key : BuildKey) (j : ι)
    (x y : BuildCache ι) (a : ArtifactId) : Prop :=
  ∃ k r created, r.Puts S c key ∧ y.shard.task k = .done (.published r created) ∧
    a = r.artifact E ∧ (k = j ∨ ∀ o, x.shard.task k ≠ .done o)

/-- What holds in every state `y` after the state `x` in which PUT `j` committed. -/
structure Since (E : Env ι) (S : Set Bytes) (c : ChannelId) (key : BuildKey) (j : ι)
    (x y : BuildCache ι) : Prop where
  answered : ∀ k c' key' reply, x.session k = .answered c' key' reply →
    y.session k = .answered c' key' reply ∧ ∀ r created,
      y.shard.task k = .done (.published r created) → x.shard.task k = .done (.published r created)
  bound : ∀ record, y.shard.shared.reference c key.reference = some record →
    StoredSince E S c key j x y record.artifact
  serving : ∀ i a, x.session i = .idle → y.session i = .serving c key a →
    StoredSince E S c key j x y a
  hit : ∀ i a m f, x.session i = .idle → y.session i = .answered c key (.hit a m f) →
    StoredSince E S c key j x y a

variable {c : ChannelId} {key : BuildKey} {j : ι} {w z : BuildCache ι}

omit [DecidableEq ι] in
theorem StoredSince.mono {a : ArtifactId} (h : StoredSince E S c key j x y a)
    (hdone : ∀ k o, y.shard.task k = .done o → z.shard.task k = .done o) :
    StoredSince E S c key j x z a := by
  obtain ⟨k, r, created, hr, htask, ha, hlater⟩ := h
  exact ⟨k, r, created, hr, hdone k _ htask, ha, hlater⟩

omit [DecidableEq ι] in
/-- Once answered, a session stays as it is. -/
theorem quiet_not_answered {i : ι} {session : Session} (h : session.Quiet x i) {c' : ChannelId}
    {key' : BuildKey} {reply : Reply} : x.session i ≠ .answered c' key' reply := by
  intro hanswered
  cases session with
  | resolving c key =>
    rw [show x.session i = .idle from h] at hanswered
    cases hanswered
  | answered c key reply' =>
    cases reply' with
    | stored =>
      obtain ⟨noted, r, created, hputting, -⟩ := h
      rw [hputting] at hanswered
      cases hanswered
    | hit a m f =>
      rw [h.1] at hanswered
      cases hanswered
    | bypassed | refused status =>
      have hopen : (x.session i).isOpen = true := h
      rw [hanswered] at hopen
      cases hopen
  | _ => exact h.elim

omit [DecidableEq ι] in
theorem fires_not_answered {i : ι} {e : Event} {session : Session} (h : session.Fires S x i e)
    {c' : ChannelId} {key' : BuildKey} {reply : Reply} :
    x.session i ≠ .answered c' key' reply := by
  intro hanswered
  cases session with
  | putting c key noted =>
    rcases h with ⟨hidle, -⟩ | ⟨-, noted', hputting⟩
    · rw [hidle] at hanswered
      cases hanswered
    · rw [hputting] at hanswered
      cases hanswered
  | serving c key a =>
    rcases h with ⟨hresolving, -⟩ | ⟨-, hserving⟩
    · rw [hresolving] at hanswered
      cases hanswered
    · rw [hserving] at hanswered
      cases hanswered
  | other =>
    rcases h.1 with hidle | hother
    · rw [hidle] at hanswered
      cases hanswered
    · rw [hother] at hanswered
      cases hanswered
  | _ => exact h.elim

theorem Since.quiet {i : ι} {session : Session} (h : Since E S c key j x y)
    (hquiet : session.Quiet y i) : Since E S c key j x (y.setSession i session) := by
  have hself : (y.setSession i session).session i = session := Function.update_self ..
  have hother : ∀ {k}, k ≠ i → (y.setSession i session).session k = y.session k :=
    fun hk => Function.update_of_ne hk ..
  refine ⟨?_, h.bound, ?_, ?_⟩
  · intro k c' key' reply hk
    obtain ⟨hanswered, htask⟩ := h.answered k c' key' reply hk
    have hki : k ≠ i := by
      rintro rfl
      exact quiet_not_answered hquiet hanswered
    exact ⟨(hother hki).trans hanswered, htask⟩
  · intro k a hidle hk
    by_cases hki : k = i
    · subst hki
      rw [hself] at hk
      rw [hk] at hquiet
      exact hquiet.elim
    · exact h.serving k a hidle (hother hki ▸ hk)
  · intro k a m f hidle hk
    by_cases hki : k = i
    · subst hki
      rw [hself] at hk
      rw [hk] at hquiet
      exact h.serving k a hidle hquiet.1
    · exact h.hit k a m f hidle (hother hki ▸ hk)

/-- The reference is bound by later commits only. -/
theorem Since.bound_fire {i : ι} {e : Event} {p : Shard ι} (h : Since E S c key j x y)
    (hsteps : (buildCache E).Steps (Uploads S) x y)
    (honly : (y.shard.task i).Only (·.IsPut S) (otherReference · = true))
    (hfire : y.shard.fire E i e = some p) (session : ι → Session) :
    ∀ record, p.shared.reference c key.reference = some record →
      StoredSince E S c key j x ⟨p, session⟩ record.artifact := by
  intro record hrecord
  have hstep := (Shard.fire_eq_some hfire).1
  have hkept : y.shard.shared.reference c key.reference = some record →
      StoredSince E S c key j x ⟨p, session⟩ record.artifact :=
    fun hkept => (h.bound record hkept).mono fun _ _ => fire_done hfire
  cases (step_move hstep).reference_change c key.reference with
  | keep hkeep => exact hkept (hkeep ▸ hrecord)
  | @published r f found ht hc hname hnew =>
    rw [ht] at hstep honly
    cases e with
    | run now =>
      obtain ⟨-, htask⟩ := Prod.mk.inj (Option.some.inj hstep)
      obtain ⟨c', key', contentType, stream, rfl, hS⟩ := honly
      obtain rfl : c' = c := hc
      obtain rfl : key' = key := by
        have hsame : PublicationTarget.contentAddressed (some key'.reference) =
            .contentAddressed (some key.reference) := hname
        injection hsame with hsame
        exact BuildKey.reference_inj (Option.some.inj hsame)
      rw [hnew] at hrecord
      cases hrecord
      refine ⟨i, _, !found, ⟨contentType, stream, rfl, hS⟩, htask.symm, rfl, .inr ?_⟩
      intro o ho
      rw [done_of_steps hsteps ho] at ht
      cases ht
    | fail =>
      obtain ⟨hs, -⟩ := Prod.mk.inj (Option.some.inj hstep)
      rw [← hs] at hrecord
      exact hkept hrecord
    | start op => cases hstep
    | remove path => cases hstep
  | written ht =>
    rw [ht] at honly
    exact absurd rfl (otherReference_ne honly key)
  | deleted ht hnone =>
    rw [hnone] at hrecord
    cases hrecord

theorem Since.fire {i : ι} {e : Event} {p : Shard ι} {session : Session}
    (h : Since E S c key j x y) (hsteps : (buildCache E).Steps (Uploads S) x y)
    (honly : (y.shard.task i).Only (·.IsPut S) (otherReference · = true))
    (hfire : y.shard.fire E i e = some p) (hfires : session.Fires S y i e) :
    Since E S c key j x ⟨p, Function.update y.session i session⟩ := by
  have hself : Function.update y.session i session i = session := Function.update_self ..
  have hother : ∀ {k}, k ≠ i → Function.update y.session i session k = y.session k :=
    fun hk => Function.update_of_ne hk ..
  have hmono : ∀ {a}, StoredSince E S c key j x y a →
      StoredSince E S c key j x ⟨p, Function.update y.session i session⟩ a :=
    fun ha => ha.mono fun _ _ => fire_done hfire
  refine ⟨?_, h.bound_fire hsteps honly hfire _, ?_, ?_⟩
  · intro k c' key' reply hk
    obtain ⟨hanswered, htask⟩ := h.answered k c' key' reply hk
    have hki : k ≠ i := by
      rintro rfl
      exact fires_not_answered hfires hanswered
    refine ⟨(hother hki).trans hanswered, fun r created hk => htask r created ?_⟩
    exact ((Shard.fire_eq_some hfire).2 k hki).symm.trans hk
  · intro k a hidle hk
    by_cases hki : k = i
    · subst hki
      rw [show session = .serving c key a from hself.symm.trans hk] at hfires
      rcases hfires with ⟨-, -, record, hrecord, rfl⟩ | ⟨-, hserving⟩
      · exact hmono (h.bound record hrecord)
      · exact hmono (h.serving k a hidle hserving)
    · exact hmono (h.serving k a hidle ((hother hki).symm.trans hk))
  · intro k a m f hidle hk
    by_cases hki : k = i
    · subst hki
      rw [show session = .answered c key (.hit a m f) from hself.symm.trans hk] at hfires
      exact hfires.elim
    · exact hmono (h.hit k a m f hidle ((hother hki).symm.trans hk))

omit [DecidableEq ι] in
theorem lost_eq_done {t : Task} {r : PublishRequest} {created : Bool}
    (h : t.lost = .done (.published r created)) : t = .done (.published r created) := by
  cases t with
  | done o => exact h
  | _ => cases h

omit [DecidableEq ι] in
theorem Since.crash (h : Since E S c key j x y) :
    Since E S c key j x ⟨y.shard.crash, fun i => (y.session i).crash⟩ := by
  have hdone : ∀ k o, y.shard.task k = .done o → y.shard.crash.task k = .done o := by
    intro k o hk
    show (y.shard.task k).lost = .done o
    rw [hk]
    rfl
  refine ⟨?_, ?_, ?_, ?_⟩
  · intro k c' key' reply hk
    obtain ⟨hanswered, htask⟩ := h.answered k c' key' reply hk
    refine ⟨?_, fun r created hlost => htask r created (lost_eq_done hlost)⟩
    show (y.session k).crash = .answered c' key' reply
    rw [hanswered]
    rfl
  · intro record hrecord
    exact (h.bound record hrecord).mono hdone
  · intro k a _ hk
    have hcrash : (y.session k).crash = .serving c key a := hk
    cases hy : y.session k <;> rw [hy] at hcrash <;> cases hcrash
  · intro k a m f hidle hk
    have hcrash : (y.session k).crash = .answered c key (.hit a m f) := hk
    refine (h.hit k a m f hidle ?_).mono hdone
    cases hy : y.session k <;> rw [hy] at hcrash <;> cases hcrash
    rfl

theorem since_of_steps (hx : (buildCache E).Reach (Uploads S) x) (h : Since E S c key j x x)
    (hsteps : (buildCache E).Steps (Uploads S) x y) : Since E S c key j x y := by
  have hboth : (buildCache E).Steps (Uploads S) x y ∧ Since E S c key j x y := by
    refine hsteps.preserves_of_reach
      (I := fun u => (buildCache E).Steps (Uploads S) x u ∧ Since E S c key j x u) ?_
      (fun _ _ => id) hx ⟨Relation.ReflTransGen.refl, h⟩
    rintro u a v hu ⟨hxu, hsince⟩ ha hstep
    refine ⟨hxu.tail ⟨a, ha, hstep⟩, ?_⟩
    rcases act_cases ha hstep with ⟨i, session, rfl, hquiet⟩ |
      ⟨i, e, p, session, hfire, rfl, hfires⟩ | rfl
    · exact hsince.quiet hquiet
    · exact hsince.fire hxu (only_of_reach (shard_of_reach hu) i) hfire hfires
    · exact hsince.crash
  exact hboth.2

/-! ## The commit of a PUT -/

/-- A step from `w` to `x` in which the publication of PUT `j` commits. -/
def Commits (E : Env ι) (j : ι) (w x : BuildCache ι) : Prop :=
  (∃ a, (buildCache E).step w a x) ∧ ∃ r f found created,
    w.shard.task j = .publish r (.commitWrite f found) ∧
      x.shard.task j = .done (.published r created)

/-- The commit of a PUT binds the reference of its key. -/
theorem reference_of_commit {s : Shared ι} {r : PublishRequest} (hr : r.Puts S c key) (f : Fence)
    (found : Bool) (now : UInt64) :
    (r.release E j f (s.commit r.durability (r.batch E f found now))).reference c key.reference =
      some ⟨r.artifact E, f.stagedAt, none, none⟩ := by
  obtain ⟨contentType, stream, rfl, -⟩ := hr
  simp [Shared.reference, PublishRequest.release, Shared.unlockStripe, Shared.unlockRead,
    PublishRequest.batch, PublishRequest.reference, BuildKey.putRequest]

/-- Right after the commit, the reference is bound by it. -/
theorem Since.start {a : BuildAction ι} (ha : Uploads S w a) (hstep : (buildCache E).step w a x)
    (hbefore : ¬ ∃ r created, w.shard.task j = .done (.published r created))
    {r : PublishRequest} {created : Bool} (hr : r.Puts S c key)
    (hafter : x.shard.task j = .done (.published r created)) :
    Commits E j w x ∧ Since E S c key j x x := by
  rcases act_cases ha hstep with ⟨i, session, rfl, -⟩ | ⟨i, e, p, session, hfire, rfl, hfires⟩ |
    rfl
  · exact absurd ⟨r, created, hafter⟩ hbefore
  · obtain ⟨hown, hother⟩ := Shard.fire_eq_some hfire
    obtain rfl : j = i := by
      by_contra hji
      exact hbefore ⟨r, created, (hother j hji).symm.trans hafter⟩
    rw [show p.task j = _ from hafter] at hown
    obtain ⟨f, found, now, ht, hs⟩ := step_to_published hown
    refine ⟨⟨⟨a, hstep⟩, r, f, found, created, ht, hafter⟩,
      fun _ _ _ _ hk => ⟨hk, fun _ _ => id⟩, ?_, ?_, ?_⟩
    · intro record hrecord
      have hbound : p.shared.reference c key.reference = some record := hrecord
      rw [hs, reference_of_commit hr] at hbound
      cases hbound
      exact ⟨j, r, created, hr, hafter, rfl, .inl rfl⟩
    · intro k b hidle hserving
      rw [hidle] at hserving
      cases hserving
    · intro k b m f' hidle hhit
      rw [hidle] at hhit
      cases hhit
  · exact absurd ⟨r, created, lost_eq_done hafter⟩ hbefore

/-- A session that has not started yet had not started before. -/
theorem idle_of_steps {i : ι} (h : (buildCache E).Steps (Uploads S) x y)
    (hidle : y.session i = .idle) : x.session i = .idle := by
  by_contra hx
  refine h.preserves (I := fun u => u.session i ≠ .idle) ?_ hx hidle
  intro u a v hu ha hstep
  rcases act_cases ha hstep with ⟨k, session, rfl, hquiet⟩ |
    ⟨k, e, p, session, hfire, rfl, hfires⟩ | rfl
  · by_cases hki : i = k
    · subst hki
      rw [show (u.setSession i session).session i = session from Function.update_self ..]
      rintro rfl
      exact hquiet
    · rwa [show (u.setSession k session).session i = u.session i from
        Function.update_of_ne hki ..]
  · by_cases hki : i = k
    · subst hki
      show Function.update u.session i session i ≠ .idle
      rw [Function.update_self]
      rintro rfl
      exact hfires
    · show Function.update u.session k session i ≠ .idle
      rwa [Function.update_of_ne hki]
  · intro hcrash
    refine hu ?_
    have hcrash : (u.session i).crash = .idle := hcrash
    cases hs : u.session i with
    | idle => rfl
    | _ =>
      rw [hs] at hcrash
      cases hcrash

/-! ## What a GET receives -/

theorem Event.Only.mono {P P' : PublishRequest → Prop} {Q : Bytes → Prop}
    (hP : ∀ r, P r → P' r) {e : Event} (h : e.Only P Q) : e.Only P' Q := by
  cases e with
  | start op =>
    cases op with
    | publish r => exact hP r h
    | _ => exact h
  | _ => trivial

omit [DecidableEq ι] in
/-- With SHA-256 collision free on the uploads, the two halves of a hit fit, and it is the
body that was uploaded. -/
theorem clientBody_eq {a : ArtifactId} {m : ArtifactMetadata} {f : Bytes}
    (hS : Set.InjOn E.sha256 S) (hm : RecordOf E .zstd S a m) (hf : FileOf E .zstd S a f)
    {body : Bytes} (hbody : body ∈ S) (ha : E.sha256 body = a.digest) (acceptsZstd : Bool) :
    clientBody E acceptsZstd m f = some body := by
  obtain ⟨henc, b, hb, hbdigest, hlen⟩ := hm
  obtain ⟨b', hb', hb'digest, hdecode⟩ := hf
  obtain rfl : b = body := hS hb hbody (hbdigest.trans ha.symm)
  obtain rfl : b' = b := hS hb' hbody (hb'digest.trans ha.symm)
  have hzstd : E.zstdDecode f = some b' := hdecode
  rw [clientBody, henc]
  cases acceptsZstd <;> simp [hzstd, hlen]

/-- What a hit holds is stored by PUTs of bodies from `S`. -/
theorem hit_of_reach (h : (buildCache E).Reach (Uploads S) y) {i : ι} {a : ArtifactId}
    {m : ArtifactMetadata} {f : Bytes} (hhit : y.session i = .answered c key (.hit a m f)) :
    RecordOf E .zstd S a m ∧ FileOf E .zstd S a f := by
  have hfits := sessions_of_reach h i
  rw [hhit] at hfits
  have hshard : (shard E).Reach
      (Only (fun r => r.encoding = .zstd ∧ r.body ∈ S) (otherReference · = true)) y.shard := by
    refine (shard_of_reach h).mono ?_
    intro p b hb
    cases b with
    | thread k e =>
      refine Event.Only.mono ?_ hb
      rintro _ ⟨c', key', contentType, stream, rfl, hmem⟩
      exact ⟨rfl, hmem⟩
    | crash => trivial
    | losePower d z => exact hb.elim
  exact (encoded_of_reach hshard).hit i c a m f hfits

/-- Once a PUT was answered because its publication committed, a GET that starts later and
hits returns its body, or that of a PUT that was not answered yet when it committed. -/
theorem stored_put_not_undone (hS : Set.InjOn E.sha256 S) {i : ι} {a : ArtifactId}
    {m : ArtifactMetadata} {f : Bytes} (hz : (buildCache E).Reach (Uploads S) z)
    (hput : z.session j = .answered c key .stored) (hidle : z.session i = .idle)
    (hsteps : (buildCache E).Steps (Uploads S) z y)
    (hget : y.session i = .answered c key (.hit a m f)) :
    ∃ w x, (buildCache E).Reach (Uploads S) w ∧ Commits E j w x ∧
      (buildCache E).Steps (Uploads S) x z ∧
      ∃ k r created, r.Puts S c key ∧ y.shard.task k = .done (.published r created) ∧
        (∀ acceptsZstd, clientBody E acceptsZstd m f = some r.body) ∧
        (k = j ∨ ∀ c' key' reply, x.session k ≠ .answered c' key' reply) := by
  have hfits := sessions_of_reach hz j
  rw [hput] at hfits
  obtain ⟨r, created, hr, hdone⟩ := hfits
  obtain ⟨s₀, hinit, hrun⟩ := hz
  have hnot : ¬ ∃ r created, s₀.shard.task j = .done (.published r created) := by
    obtain ⟨expirySeconds, now, rfl⟩ := hinit
    rintro ⟨r, created, hr⟩
    cases hr
  -- the step at which the publication of `j` returned
  obtain ⟨w, b, x, hw, hb, hstep, hbefore, ⟨r', created', hafter⟩, hxz⟩ :=
    hrun.exists_first (P := fun x => ∃ r created, x.shard.task j = .done (.published r created))
      hnot ⟨r, created, hdone⟩
  have hsame := (done_of_steps hxz hafter).symm.trans hdone
  cases hsame
  obtain ⟨hcommits, hstart⟩ := Since.start hb hstep hbefore hr hafter
  have hwreach : (buildCache E).Reach (Uploads S) w := ⟨s₀, hinit, hw⟩
  have hxreach := hwreach.tail hb hstep
  have hxy := Relation.ReflTransGen.trans hxz hsteps
  have hsince := since_of_steps hxreach hstart hxy
  have hxidle : x.session i = .idle := idle_of_steps hxz hidle
  obtain ⟨k, r', created', hr', hk, ha, hlater⟩ := hsince.hit i a m f hxidle hget
  refine ⟨w, x, hwreach, hcommits, hxz, k, r', created', hr', hk, ?_, ?_⟩
  · obtain ⟨hm, hf⟩ := hit_of_reach (hxreach.steps hxy) hget
    obtain ⟨contentType, stream, rfl, hmem⟩ := hr'
    exact clientBody_eq hS hm hf hmem (congrArg ArtifactId.digest ha).symm
  · rcases hlater with rfl | hlater
    · exact .inl rfl
    · refine .inr fun c' key' reply hanswered => ?_
      exact hlater _ ((hsince.answered k c' key' reply hanswered).2 r' created' hk)

end Steps

/-! ## Two histories

Both overwrite the key `k` of the Default Channel, which holds the body `a`, with the body
`b`; then a GET follows. -/

def sampleKey : BuildKey := .http [107]

/-- Request `i` makes `n` steps of its operation and is answered. -/
def requestSteps (i : BitVec 128) (n : Nat) : List (BuildAction (BitVec 128)) :=
  List.replicate n (.run i (.run 100) .other) ++ [.answer i]

/-- A PUT of the body `a` that is stored. -/
def firstPut : List (BuildAction (BitVec 128)) :=
  .put 0 .default sampleKey none [[97]] true :: requestSteps 0 14

/-- The PUT of the body `b` by session 1. -/
def secondPut : BuildAction (BitVec 128) := .put 1 .default sampleKey none [[98]] true

def sampleGet : List (BuildAction (BitVec 128)) :=
  .get 2 .default sampleKey true :: .resolve 2 true true :: requestSteps 2 2

def buildExec (x : BuildCache (BitVec 128)) (schedule : List (BuildAction (BitVec 128))) :
    Option (BuildCache (BitVec 128)) :=
  System.exec (BuildCache.act sampleEnv) (fun _ a => match a with
    | .put _ _ _ _ stream _ => stream.flatten == [97] || stream.flatten == [98]
    | _ => true) x schedule

theorem steps_of_buildExec {x y : BuildCache (BitVec 128)}
    {schedule : List (BuildAction (BitVec 128))} (h : buildExec x schedule = some y) :
    (buildCache sampleEnv).Steps (Uploads {[97], [98]}) x y := by
  refine System.steps_of_exec (fun _ _ _ => id) ?_ h
  intro x a ha
  cases a with
  | put i c key contentType stream permit =>
    rcases (Bool.or_eq_true _ _).mp ha with ha | ha
    · exact .inl (eq_of_beq ha)
    · exact .inr (eq_of_beq ha)
  | _ => trivial

/-- The history up to the GET, with what `middle` makes of the second PUT. -/
def overwriteRun (middle : List (BuildAction (BitVec 128)))
    (check : BuildCache (BitVec 128) → BuildCache (BitVec 128) → BuildCache (BitVec 128) → Bool) :
    Bool :=
  (buildExec (.fresh _ 100 0) firstPut).any fun x =>
    (x.act sampleEnv secondPut).any fun x' =>
      (buildExec x' middle).any fun z => (buildExec z sampleGet).any fun y => check x z y

theorem steps_of_overwriteRun {middle : List (BuildAction (BitVec 128))}
    {check : BuildCache (BitVec 128) → BuildCache (BitVec 128) → BuildCache (BitVec 128) → Bool}
    (h : overwriteRun middle check = true) :
    ∃ x x' z y, (buildCache sampleEnv).Reach (Uploads {[97], [98]}) x ∧
      (buildCache sampleEnv).step x secondPut x' ∧
      (buildCache sampleEnv).Steps (Uploads {[97], [98]}) x' z ∧
      (buildCache sampleEnv).Steps (Uploads {[97], [98]}) z y ∧ check x z y = true := by
  obtain ⟨x, hx, h⟩ := (Option.any_eq_true _ _).mp h
  obtain ⟨x', hx', h⟩ := (Option.any_eq_true _ _).mp h
  obtain ⟨z, hz, h⟩ := (Option.any_eq_true _ _).mp h
  obtain ⟨y, hy, h⟩ := (Option.any_eq_true _ _).mp h
  exact ⟨x, x', z, y, ⟨_, ⟨100, 0, rfl⟩, steps_of_buildExec hx⟩, hx', steps_of_buildExec hz,
    steps_of_buildExec hy, h⟩

/-- The record of a one-byte body, stored as a frame of ten bytes. -/
def frameRecord : ArtifactMetadata := ⟨1, none, 100, 200, 10, .zstd⟩

/-- The second PUT runs out of space in its first step. It is answered 200 like the first,
and a GET that starts after that still returns the body of the first. -/
theorem bypassed_put_undone : ∃ x x' z y : BuildCache (BitVec 128), ∃ reply a m f,
    (buildCache sampleEnv).Reach (Uploads {[97], [98]}) x ∧
      x.session 0 = .answered .default sampleKey .stored ∧
      x.shard.task 0 = .done (.published (sampleKey.putRequest .default none [[97]]) true) ∧
      x.session 1 = .idle ∧ (buildCache sampleEnv).step x secondPut x' ∧
      (buildCache sampleEnv).Steps (Uploads {[97], [98]}) x' z ∧
      z.session 1 = .answered .default sampleKey reply ∧ reply.status = 200 ∧
      z.session 2 = .idle ∧ (buildCache sampleEnv).Steps (Uploads {[97], [98]}) z y ∧
      y.session 2 = .answered .default sampleKey (.hit a m f) ∧
      clientBody sampleEnv false m f = some [97] := by
  have hrun : overwriteRun [.run 1 .fail .outOfSpace, .answer 1] (fun x z y =>
      decide (x.session 0 = .answered .default sampleKey .stored ∧
        x.shard.task 0 = .done (.published (sampleKey.putRequest .default none [[97]]) true) ∧
        x.session 1 = .idle ∧ z.session 1 = .answered .default sampleKey .bypassed ∧
        z.session 2 = .idle ∧ y.session 2 = .answered .default sampleKey
          (.hit sampleArtifact frameRecord (rawFrame [97])))) = true := by decide +kernel
  obtain ⟨x, x', z, y, hx, hput, hz, hy, hcheck⟩ := steps_of_overwriteRun hrun
  obtain ⟨h0, htask, h1, hbypassed, h2, hhit⟩ := of_decide_eq_true hcheck
  exact ⟨x, x', z, y, .bypassed, sampleArtifact, frameRecord, rawFrame [97], hx, h0, htask, h1,
    hput, hz, hbypassed, rfl, h2, hy, hhit, by decide +kernel⟩

/-- The second PUT commits, and the GET returns its body. -/
theorem overwritten_put_read : ∃ z y : BuildCache (BitVec 128), ∃ k r created,
    z.session 1 = .answered .default sampleKey .stored ∧ z.session 2 = .idle ∧
      y.session 2 = .answered .default sampleKey
        (.hit (.fromDigest otherDigest) frameRecord (rawFrame [98])) ∧
      r.Puts {[97], [98]} .default sampleKey ∧ y.shard.task k = .done (.published r created) ∧
      clientBody sampleEnv true frameRecord (rawFrame [98]) = some r.body := by
  have hrun : overwriteRun (requestSteps 1 14) (fun _ z y =>
      decide (z.session 1 = .answered .default sampleKey .stored ∧
        z.session 2 = .idle ∧ y.session 2 = .answered .default sampleKey
          (.hit (.fromDigest otherDigest) frameRecord (rawFrame [98])))) = true := by decide +kernel
  obtain ⟨x, x', z, y, hx, hput, hz, hy, hcheck⟩ := steps_of_overwriteRun hrun
  obtain ⟨h1, h2, hhit⟩ := of_decide_eq_true hcheck
  have hinj : Set.InjOn sampleEnv.sha256 {[97], [98]} := by
    rintro b (rfl | rfl) b' (rfl | rfl) h
    · rfl
    · exact absurd h (by decide +kernel)
    · exact absurd h (by decide +kernel)
    · rfl
  have hreach : (buildCache sampleEnv).Reach (Uploads {[97], [98]}) z :=
    (hx.tail (a := secondPut) (.inr rfl) hput).steps hz
  obtain ⟨-, -, -, -, -, k, r, created, hr, hk, hbody, -⟩ :=
    stored_put_not_undone hinj hreach h1 h2 hy hhit
  exact ⟨z, y, k, r, created, h1, h2, hhit, hr, hk, hbody true⟩

end Flywheel
