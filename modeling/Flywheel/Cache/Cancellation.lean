import Flywheel.Cache.Publication
import Flywheel.Lib.Future
import Flywheel.Lib.Transition

/-!
# Dropping an upload (`src/storage/local/artifact_files.rs`, `src/cache/service.rs`)

The future of an upload may be dropped wherever it awaits. A call of the filesystem that is in
flight then still runs to its end on its worker thread, and so does a write that the file took over
from the future. The reservation's `Drop` schedules the removal of the temporary file and releases
or commits the bytes by what the removal reports.

`publishOrReject` is the program of the future, with its awaits; `State.act` runs it next to the
worker threads, the scheduled removal and the environment. Only the lengths of the files are kept.

`contract` says what the program owes its drop: wherever it awaits, the reservation covers the bytes
that its `Drop` would commit (`publishOrReject_continues`). `Cache/Drops.lean` has the runs.
-/

set_option autoImplicit false

namespace Flywheel

open Lib

namespace Cancellation

/-! ## The operations -/

/-- A call of the filesystem on a worker thread. -/
inductive FsCall where
  | createDirAll
  | createNew
  /-- Waits for the writes that the file took over. -/
  | flush
  | metadata
  | syncAll
  | tryExists
  | removeFile
  | rename
  | syncParent
  deriving DecidableEq

/-- What the future does between and at its awaits. -/
inductive Op : Type → Type where
  | call (c : FsCall) : Op (Except IoErrorKind Nat)
  /-- The file takes a chunk over, up to the length `total`, and writes it in the background. -/
  | write (total : Nat) : Op Bool
  /-- Any other await: an item of the stream, a gate, a stripe, the store. -/
  | pause : Op Bool
  | reserve (bytes : UInt64) : Op Bool
  | mark (state : ReservationState) : Op Unit
  /-- `Reservation::commit`. -/
  | commit (bytes : UInt64) : Op Unit
  /-- `Reservation::discard`, up to its await. -/
  | discard : Op Unit
  /-- The await of `discard`. -/
  | settle : Op Unit

abbrev Upload (α : Type) : Type 1 := Async Op LocalError α

/-! ## The program -/

section Program

variable (enc : Encoder) (extent : Extent) (upload : Flywheel.Upload)

def call (c : FsCall) : Upload Nat := do
  match ← perform (.call c) with
  | .ok n => return n
  | .error kind => throw (.io kind)

/-- An await that succeeds or fails. -/
def attempt (k : Op Bool) (error : LocalError) : Upload Unit := do
  if ← perform k then return () else throw error

/-- `Reservation::discard`. -/
def discard : Upload Unit := do
  perform .discard
  perform .settle

/-- A failing step gives the reservation back before it returns. -/
def orDiscard {α : Type} (m : Upload α) : Upload α :=
  tryCatch m fun error => do
    discard
    throw error

/-- `while len > reservation.outstanding`. -/
def extendTo (len outstanding : UInt64) : Upload UInt64 :=
  if _hlen : outstanding < len then do
    if ← perform (.reserve extent.bytes) then
      extendTo len (saturatingAdd outstanding extent.bytes)
    else throw .outOfSpace
  else return outstanding
termination_by len.toNat - outstanding.toNat
decreasing_by
  have hmore := ArtifactFiles.lt_saturatingAdd extent _hlen
  have hlt := UInt64.lt_iff_toNat_lt.mp _hlen
  omega

/-- The local variables of `stage_reserved`. -/
structure Progress where
  len : UInt64
  chunks : List Bytes
  outstanding : UInt64

/-- `while let Some(chunk) = stream.next().await`. -/
def stageLoop : List Item → Progress → Upload Progress
  | [], s => do
    let _ ← perform .pause
    return s
  | item :: rest, s => do
    let _ ← perform .pause
    match item with
    | .error message => throw (.stream message)
    | .ok chunk =>
      if 2 ^ 64 ≤ s.len.toNat + chunk.length then throw .tooLarge
      else
        let len := s.len + UInt64.ofNat chunk.length
        if upload.maxBytes < len then throw .tooLarge
        else do
          let outstanding ← extendTo extent len s.outstanding
          let chunks := s.chunks ++ [chunk]
          attempt (.write (enc.written upload.encoding chunks).length) (.io .other)
          stageLoop rest ⟨len, chunks, outstanding⟩

/-- `writer.finish`, then the stored length. -/
def finish (s : Progress) : Upload UInt64 :=
  match upload.encoding with
  | .identity => do
    let _ ← call .flush
    return s.len
  | .zstd => do
    attempt (.write (enc.zstdEncode s.chunks).length) (.io .other)
    let _ ← call .flush
    return UInt64.ofNat (← call .metadata)

/-- The reservation catches up with what was stored. -/
def topUp (stored outstanding : UInt64) : Upload Unit :=
  if outstanding < stored then
    attempt (.reserve (stored - outstanding)) .outOfSpace
  else return ()

/-- `stage_reserved`; the digest and the stored length. -/
def stageReserved (stream : List Item) (outstanding : UInt64) : Upload (Digest × UInt64) := do
  let _ ← call .createDirAll
  perform (.mark .temporary)
  let _ ← call .createNew
  let s ← stageLoop enc extent upload stream ⟨0, [], outstanding⟩
  let stored ← finish enc upload s
  topUp stored s.outstanding
  if upload.durability = .durable then
    let _ ← call .syncAll
    return (enc.sha256 s.chunks.flatten, stored)
  else return (enc.sha256 s.chunks.flatten, stored)

/-- The body is there already: the staged one goes. -/
def removeStaged : Upload Bool := do
  let _ ← call .removeFile
  perform (.mark .vacant)
  return false

/-- `publish_reserved`. -/
def publishReserved (artifact : ArtifactId) (digest : Digest) : Upload Bool :=
  if digest ≠ artifact.digest then throw .digestMismatch
  else do
    let _ ← call .createDirAll
    let there ← call .tryExists
    if there ≠ 0 then removeStaged
    else
      match ← perform (.call .rename) with
      | .ok _ => do
        perform (.mark .published)
        if upload.durability = .durable then
          let _ ← call .syncParent
          return true
        else return true
      | .error .alreadyExists => removeStaged
      | .error kind => throw (.io kind)

/-- `commit_staged`: the gate, the channel's record, the stripe, the files, the store. -/
def commitStaged (artifact : ArtifactId) (digest : Digest) (stored : UInt64) : Upload Unit := do
  let _ ← perform .pause
  orDiscard (attempt .pause (.io .other))
  let _ ← perform .pause
  let installed ← orDiscard (publishReserved upload artifact digest)
  orDiscard (attempt .pause (.io .other))
  perform (.commit (if installed then stored else 0))

/-- `publish_or_reject`. -/
def publishOrReject (target : PublicationTarget) (stream : List Item) : Upload Unit := do
  let bytes := ArtifactFiles.initial extent upload
  if ← perform (.reserve bytes) then
    let (digest, stored) ←
      orDiscard (stageReserved enc extent upload stream (saturatingAdd 0 bytes))
    let artifact := match target with
      | .byId artifact => artifact
      | .contentAddressed _ => ArtifactId.fromDigest digest
    commitStaged upload artifact digest stored
  else return ()

end Program

/-! ## The machine -/

structure State where
  /-- The length of the temporary file, while it has its name. -/
  temp : Option Nat
  /-- The length of the final file, if this upload put it there. -/
  final : Option Nat
  /-- The length that the file's background write brings it to. -/
  backlog : Option Nat
  /-- The call of the filesystem that is in flight. -/
  flight : Option FsCall
  /-- What it reported, until the future takes it. -/
  answer : Option (Except IoErrorKind Nat)
  future : Option (Future Op (Except LocalError Unit))
  account : Account
  /-- A removal of the temporary file that `discard` or `Drop` asked for. -/
  removal : Bool

inductive Action where
  /-- The future is polled; `ready` is the outcome of a pause, a write or a reservation. -/
  | poll (ready : Bool)
  /-- The call in flight takes effect, or fails; `there` is another file at the final path. -/
  | land (failed there : Bool)
  /-- A background write brings the file to the length `n`. -/
  | written (n : Nat) (last : Bool)
  /-- The future is dropped. -/
  | drop (runtime : Bool)
  /-- The removal returns. -/
  | removed (failed : Bool)
  /-- The task of a scheduled removal ends with the runtime; its call may have been `issued`. -/
  | cancel (issued : Bool)
  /-- The final file is removed or replaced. -/
  | evict

/-- One step of the holder of the reservation. -/
def step (admitted : Bool) (e : HolderEvent) (a : Account) : Option Account :=
  (a.holder.step (fun _ => admitted) e).map fun (call, holder) =>
    a.book (fun _ => admitted) holder call

/-- `Reservation::commit` and the end of the consumed value; nothing awaits in between. -/
def commit (bytes : UInt64) (a : Account) : Option Account :=
  (step true (.commit bytes) a).bind fun a =>
    (if a.holder.isCommitting then step true .releaseSlack a else some a).bind
      (step true (.drop true))

def isPending : Holder → Bool
  | .pending _ => true
  | _ => false

/-- Whether the future is suspended here, or done. -/
def suspends : Future Op (Except LocalError Unit) → Bool
  | .op (.call _) _ | .op (.write _) _ | .op .pause _ | .op .settle _ | .pure _ => true
  | _ => false

namespace State

/-- The future goes on; a call of the filesystem is issued at once. -/
def proceed (p : State) (f : Future Op (Except LocalError Unit)) : State :=
  { p with
    future := some f
    answer := none
    flight := match f with
      | .op (.call c) _ => some c
      | _ => none }

/-- One step of the future. -/
def poll (ready : Bool) (p : State) : Option State :=
  match p.future with
  | some (.op (.call _) resume) => p.answer.map fun answer => p.proceed (resume answer)
  | some (.op (.write total) resume) =>
    if ready then
      -- the file takes the chunk once it is done with the last one
      if p.backlog = none ∧ total < 2 ^ 64 then
        some ({ p with backlog := some total }.proceed (resume true))
      else none
    else some (p.proceed (resume false))
  | some (.op .pause resume) => some (p.proceed (resume ready))
  | some (.op (.reserve bytes) resume) =>
    (step ready (.reserve bytes) p.account).map fun account =>
      { p with account := account }.proceed (resume (bytes = 0 || ready))
  | some (.op (.mark state) resume) =>
    (step true (.mark state) p.account).map fun account =>
      { p with account := account }.proceed (resume ())
  | some (.op (.commit bytes) resume) =>
    (commit bytes p.account).map fun account =>
      { p with account := account, removal := isPending account.holder }.proceed (resume ())
  | some (.op .discard resume) =>
    (step true .discard p.account).map fun account =>
      { p with account := account, removal := isPending account.holder }.proceed (resume ())
  | some (.op .settle resume) => if p.removal then none else some (p.proceed (resume ()))
  | some (.pure _) | none => none

/-- The effect of a call that succeeds, and its answer. -/
def effect (there : Bool) (p : State) : FsCall → State × Except IoErrorKind Nat
  | .createNew =>
    match p.temp with
    | some _ => (p, .error .alreadyExists)
    | none => ({ p with temp := some 0, backlog := none }, .ok 0)
  | .removeFile =>
    match p.temp with
    | some _ => ({ p with temp := none }, .ok 0)
    | none => (p, .error .notFound)
  | .rename =>
    match p.temp with
    | some n => ({ p with temp := none, final := some n }, .ok 0)
    | none => (p, .error .notFound)
  | .metadata => (p, .ok (p.temp.getD 0))
  | .tryExists => (p, .ok (if there || p.final.isSome then 1 else 0))
  | .createDirAll | .flush | .syncAll | .syncParent => (p, .ok 0)

/-- The calls on the file itself wait for its background write. -/
def waits : FsCall → Bool
  | .flush | .metadata | .syncAll => true
  | _ => false

def land (failed there : Bool) (p : State) : Option State :=
  p.flight.bind fun c =>
    if waits c ∧ p.backlog ≠ none then none
    else if failed then some { p with flight := none, answer := some (.error .other) }
    else
      let (p, answer) := p.effect there c
      some { p with flight := none, answer := some answer }

def written (n : Nat) (last : Bool) (p : State) : Option State :=
  p.backlog.bind fun total =>
    if n ≤ total then
      some { p with
        temp := p.temp.map fun _ => n
        backlog := if last then none else some total }
    else none

/-- The drop of what the future owns: a live `Reservation`, or the settlement that awaits. -/
def drop (runtime : Bool) (p : State) : Option State :=
  match p.future with
  | some f =>
    if suspends f then
      match p.account.holder with
      | .held _ =>
        (step true (.drop runtime) p.account).map fun account =>
          { p with
            future := none
            account := account
            removal := isPending account.holder }
      | .pending _ =>
        (step true .cancel p.account).map fun account =>
          { p with future := none, account := account }
      | _ => some { p with future := none }
    else none
  | none => none

/-- `settle_removal`, unless the settlement was dropped before. -/
def settleRemoval (gone : Bool) (p : State) : Option State :=
  if isPending p.account.holder then
    (step true (.removed gone) p.account).map fun account =>
      { p with account := account, removal := false }
  else some { p with removal := false }

def removed (failed : Bool) (p : State) : Option State :=
  if p.removal then
    if failed then p.settleRemoval false
    else
      -- `NotFound` counts as removed
      { p with temp := none }.settleRemoval true
  else none

def cancel (issued : Bool) (p : State) : Option State :=
  if p.future.isNone ∧ p.removal ∧ isPending p.account.holder then
    (step true .cancel p.account).map fun account =>
      { p with account := account, removal := issued }
  else none

def act (p : State) : Action → Option State
  | .poll ready => p.poll ready
  | .land failed there => p.land failed there
  | .written n last => p.written n last
  | .drop runtime => p.drop runtime
  | .removed failed => p.removed failed
  | .cancel issued => p.cancel issued
  | .evict => some { p with final := none }

/-- The bytes of the upload on disk. -/
def bytes (p : State) : Nat := p.temp.getD 0 + p.final.getD 0

/-- Nothing is left to happen: no future, no call, no write, no removal, no reservation. -/
def Settled (p : State) : Prop :=
  p.future = none ∧ p.flight = none ∧ p.backlog = none ∧ p.removal = false ∧
    p.account.holder = .settled

/-- The bytes of the upload on disk, once the background write is done. -/
def potential (p : State) : Nat :=
  (p.temp.elim 0 fun n => max n (p.backlog.getD 0)) + p.final.getD 0

/-- The step settles the reservation by committing it, with the temporary file still there. -/
def commits (p : State) : Action → Bool
  | .removed failed => failed && isPending p.account.holder
  | .cancel _ => true
  | .drop runtime =>
    isPending p.account.holder ||
      (!runtime && p.account.holder matches .held ⟨_, .temporary⟩)
  | _ => false

/-- The removal that releases the reservation does not find the temporary file gone because a
rename in flight moved it, and a frame is committed only if the reservation covers it. -/
structure Careful (encoding : StoredEncoding) (p : State) (a : Action) : Prop where
  vacant : a = .removed false → isPending p.account.holder = true → p.temp = none →
    p.final.getD 0 = 0
  covered : encoding = .zstd → p.commits a = true → p.potential ≤ p.account.holder.outstanding

end State

/-- The upload before its future is first polled. -/
def start (program : Upload Unit) : State :=
  State.proceed
    { temp := none
      final := none
      backlog := none
      flight := none
      answer := none
      future := none
      account := ⟨.held .new, 0, 0, 0⟩
      removal := false } program

def machine (program : Upload Unit) : System State Action where
  init p := p = start program
  step p a p' := p.act a = some p'

/-! ## What the program owes its drop -/

/-- What is known of the upload at a point of its program. -/
structure View where
  reservation : Option Reservation
  /-- No more than these bytes are on disk, or on their way there. -/
  bytes : Nat
  /-- The body has its final name. -/
  moved : Bool

/-- A reservation may be dropped here: it covers the bytes that its `Drop` would commit. -/
structure Droppable (encoding : StoredEncoding) (r : Reservation) (v : View) : Prop where
  moved : v.moved = true → r.state = .published
  vacant : r.state = .vacant → v.bytes = 0
  published : r.state = .published → v.bytes ≤ r.outstanding.toNat
  identity : encoding = .identity → v.bytes ≤ r.outstanding.toNat

def Live (encoding : StoredEncoding) (v : View) : Prop :=
  ∃ r, v.reservation = some r ∧ Droppable encoding r v

/-- What a call that returns leaves. -/
def View.after : FsCall → Except IoErrorKind Nat → View → View
  | .removeFile, .ok _, v => { v with bytes := 0 }
  | .rename, .ok _, v => { v with moved := true }
  | .metadata, .ok n, v => { v with bytes := min v.bytes n }
  | _, _, v => v

/-- What a call may report. -/
def Answers (c : FsCall) (v : View) (answer : Except IoErrorKind Nat) : Prop :=
  c = .metadata → ∀ n, answer = .ok n → n ≤ v.bytes

section Contract

variable (encoding : StoredEncoding)

def spec : {β : Type} → Op β → View → (β → View → Prop) → Prop
  | _, .call c, v, Q => Live encoding v ∧ (c ≠ .syncParent → v.moved = false) ∧
      ∀ answer, Answers c v answer → Q answer (v.after c answer)
  | _, .write total, v, Q => Live encoding v ∧
      (total < 2 ^ 64 → Q true { v with bytes := max v.bytes total }) ∧ Q false v
  | _, .pause, v, Q => Live encoding v ∧ ∀ ready, Q ready v
  | _, .reserve bytes, v, Q => ∃ r, v.reservation = some r ∧
      Q true { v with reservation := some (r.add bytes) } ∧ Q false v
  | _, .mark state, v, Q => ∃ r, v.reservation = some r ∧
      Q () { v with reservation := some { r with state := state } }
  | _, .commit bytes, v, Q => ∃ r, v.reservation = some r ∧ r.state ≠ .temporary ∧
      v.bytes ≤ bytes.toNat ∧ v.bytes ≤ r.outstanding.toNat ∧
      Q () { v with reservation := none }
  | _, .discard, v, Q => Live encoding v ∧ Q () { v with reservation := none }
  | _, .settle, v, Q => v.reservation = none ∧ Q () v

/-- The contract of the operations of an upload. -/
def contract : Contract Op View where
  spec := spec encoding
  mono := by
    intro β k v Q Q' hQ h
    cases k with
    | call c => exact ⟨h.1, h.2.1, fun answer hanswer => hQ _ _ (h.2.2 answer hanswer)⟩
    | write total => exact ⟨h.1, fun htotal => hQ _ _ (h.2.1 htotal), hQ _ _ h.2.2⟩
    | pause => exact ⟨h.1, fun ready => hQ _ _ (h.2 ready)⟩
    | reserve bytes =>
      obtain ⟨r, hr, htrue, hfalse⟩ := h
      exact ⟨r, hr, hQ _ _ htrue, hQ _ _ hfalse⟩
    | mark state =>
      obtain ⟨r, hr, hnext⟩ := h
      exact ⟨r, hr, hQ _ _ hnext⟩
    | commit bytes =>
      obtain ⟨r, hr, hstate, hbytes, houtstanding, hnext⟩ := h
      exact ⟨r, hr, hstate, hbytes, houtstanding, hQ _ _ hnext⟩
    | discard => exact ⟨h.1, hQ _ _ h.2⟩
    | settle => exact ⟨h.1, hQ _ _ h.2⟩

/-- What is left of the future may go on from here. -/
def Continues (f : Future Op (Except LocalError Unit)) (v : View) : Prop :=
  f.wp (contract encoding) v fun _ v => ∀ r, v.reservation = some r → Droppable encoding r v

end Contract

/-! ### The assertions of the program -/

section Assertions

variable {enc : Encoder} {extent : Extent} {upload : Flywheel.Upload}

/-- Nothing is owed any more. -/
def Gone (v : View) : Prop := v.reservation = none

/-- In the loop: `len` bytes were taken, and an identity body is reserved as it is written. -/
def Staging (encoding : StoredEncoding) (len outstanding : UInt64) (v : View) : Prop :=
  ∃ r, v.reservation = some r ∧ r.state = .temporary ∧ r.outstanding = outstanding ∧
    v.moved = false ∧ v.bytes < 2 ^ 64 ∧
    (encoding = .identity → v.bytes ≤ len.toNat ∧ len ≤ outstanding)

/-- After the loop: the file has the length `stored`, which may be more than is reserved. -/
def Finished (encoding : StoredEncoding) (stored outstanding : UInt64) (v : View) : Prop :=
  ∃ r, v.reservation = some r ∧ r.state = .temporary ∧ r.outstanding = outstanding ∧
    v.moved = false ∧ v.bytes ≤ stored.toNat ∧ (encoding = .identity → stored ≤ outstanding)

/-- The file is reserved, and in the given state. -/
def Covered (state : ReservationState) (stored : UInt64) (v : View) : Prop :=
  ∃ r, v.reservation = some r ∧ r.state = state ∧ stored ≤ r.outstanding ∧
    v.bytes ≤ stored.toNat ∧ (v.moved = true → state = .published) ∧
    (state = .vacant → v.bytes = 0)

theorem Staging.live {encoding : StoredEncoding} {len outstanding : UInt64} {v : View}
    (h : Staging encoding len outstanding v) : Live encoding v := by
  obtain ⟨r, hr, hstate, rfl, hmoved, -, hidentity⟩ := h
  refine ⟨r, hr, ?_, ?_, ?_, fun hencoding => ?_⟩
  · rw [hmoved]
    exact nofun
  · rw [hstate]
    exact nofun
  · rw [hstate]
    exact nofun
  · obtain ⟨hbytes, hlen⟩ := hidentity hencoding
    exact hbytes.trans (UInt64.le_iff_toNat_le.mp hlen)

theorem Finished.live {encoding : StoredEncoding} {stored outstanding : UInt64} {v : View}
    (h : Finished encoding stored outstanding v) : Live encoding v := by
  obtain ⟨r, hr, hstate, rfl, hmoved, hbytes, hidentity⟩ := h
  refine ⟨r, hr, ?_, ?_, ?_, fun hencoding => ?_⟩
  · rw [hmoved]
    exact nofun
  · rw [hstate]
    exact nofun
  · rw [hstate]
    exact nofun
  · exact hbytes.trans (UInt64.le_iff_toNat_le.mp (hidentity hencoding))

theorem Covered.live {encoding : StoredEncoding} {state : ReservationState} {stored : UInt64}
    {v : View} (h : Covered state stored v) : Live encoding v := by
  obtain ⟨r, hr, rfl, hstored, hbytes, hmoved, hvacant⟩ := h
  have hle := hbytes.trans (UInt64.le_iff_toNat_le.mp hstored)
  exact ⟨r, hr, hmoved, hvacant, fun _ => hle, fun _ => hle⟩

variable {encoding : StoredEncoding}

/-- A call of the filesystem, from any point where the reservation may be dropped. -/
theorem call_runs {c : FsCall} {P : View → Prop} {Q : Nat → View → Prop}
    (hlive : ∀ v, P v → Live encoding v) (hmoved : ∀ v, P v → c ≠ .syncParent → v.moved = false)
    (hok : ∀ v n, P v → Answers c v (.ok n) → Q n (v.after c (.ok n))) :
    Runs (contract encoding) P (call c) Q (Live encoding) := by
  intro v hv
  refine ⟨hlive v hv, hmoved v hv, fun answer hanswer => ?_⟩
  cases answer with
  | ok n => exact hok v n hv hanswer
  | error kind =>
    have hafter : v.after c (.error kind) = v := by cases c <;> rfl
    rw [hafter]
    exact hlive v hv

/-- A call that does not change what is known. -/
theorem call_keeps {c : FsCall} {P : View → Prop} (hlive : ∀ v, P v → Live encoding v)
    (hmoved : ∀ v, P v → c ≠ .syncParent → v.moved = false)
    (hafter : ∀ n (v : View), v.after c (.ok n) = v) :
    Runs (contract encoding) P (call c) (fun _ => P) (Live encoding) := by
  refine call_runs hlive hmoved fun v n hv _ => ?_
  rw [hafter]
  exact hv

theorem pause_runs {P : View → Prop} (hlive : ∀ v, P v → Live encoding v) :
    Runs (contract encoding) P (perform .pause : Upload Bool) (fun _ => P) (Live encoding) :=
  Runs.perform fun v hv => ⟨hlive v hv, fun _ => hv⟩

theorem attempt_pause_runs {P : View → Prop} {error : LocalError}
    (hlive : ∀ v, P v → Live encoding v) :
    Runs (contract encoding) P (attempt .pause error) (fun _ => P) (Live encoding) :=
  Runs.bind (pause_runs hlive) fun _ =>
    Runs.ite (fun _ => Runs.pure fun _ => id) fun _ => Runs.throw hlive

/-- A failing step leaves nothing owed. -/
theorem orDiscard_runs {α : Type} {m : Upload α} {P : View → Prop} {Q : α → View → Prop}
    (h : Runs (contract encoding) P m Q (Live encoding)) :
    Runs (contract encoding) P (orDiscard m) Q Gone := by
  refine Runs.tryCatch h fun error => Runs.bind (Q := fun _ => Gone) (fun v hv => ?_) fun _ =>
    Runs.throw fun _ => id
  exact ⟨hv, rfl, rfl⟩

/-! ### Staging -/

/-- The inner loop leaves with enough reserved. -/
theorem extendTo_runs {len₀ : UInt64} (len outstanding : UInt64) :
    Runs (contract encoding) (Staging encoding len₀ outstanding) (extendTo extent len outstanding)
      (fun outstanding' v => Staging encoding len₀ outstanding' v ∧ len ≤ outstanding')
      (Live encoding) := by
  induction outstanding using extendTo.induct extent len with
  | case1 outstanding hlen ih =>
    rw [extendTo, dif_pos hlen]
    refine Runs.bind (Q := fun admitted => if admitted = true
      then Staging encoding len₀ (saturatingAdd outstanding extent.bytes)
      else Staging encoding len₀ outstanding) (Runs.perform fun v hv => ?_) fun admitted => ?_
    · obtain ⟨r, hr, hstate, rfl, hmoved, hbytes, hidentity⟩ := hv
      refine ⟨r, hr, ⟨r.add extent.bytes, rfl, hstate, rfl, hmoved, hbytes, fun hencoding => ?_⟩,
        ⟨r, hr, hstate, rfl, hmoved, hbytes, hidentity⟩⟩
      obtain ⟨hle, hlen₀⟩ := hidentity hencoding
      refine ⟨hle, UInt64.le_iff_toNat_le.mpr ?_⟩
      have hlt := len₀.toNat_lt
      have hlen₀ := UInt64.le_iff_toNat_le.mp hlen₀
      rw [toNat_saturatingAdd]
      omega
    · refine Runs.ite (fun hadmitted => ?_) fun hrefused => Runs.throw fun v hv => ?_
      · rw [if_pos hadmitted]
        exact ih
      · rw [if_neg hrefused] at hv
        exact hv.live
  | case2 outstanding hlen =>
    rw [extendTo, dif_neg hlen]
    exact Runs.pure fun v hv => ⟨hv, UInt64.not_lt.mp hlen⟩

/-- The file takes a chunk that was reserved. -/
theorem write_runs {len outstanding : UInt64} {total : Nat} {error : LocalError} {P : View → Prop}
    {stored : UInt64} (hP : ∀ v, P v → Staging encoding len outstanding v)
    (htotal : encoding = .identity → len ≤ stored ∧ total ≤ stored.toNat ∧ stored ≤ outstanding) :
    Runs (contract encoding) P (attempt (.write total) error)
      (fun _ => Staging encoding stored outstanding) (Live encoding) := by
  refine Runs.bind (Q := fun taken v => if taken = true then Staging encoding stored outstanding v
    else Live encoding v) (Runs.perform fun v hv => ?_) fun taken => ?_
  · have hstaging := hP v hv
    refine ⟨hstaging.live, fun hsmall => ?_, hstaging.live⟩
    obtain ⟨r, hr, hstate, houtstanding, hmoved, hbytes, hidentity⟩ := hstaging
    refine ⟨r, hr, hstate, houtstanding, hmoved, ?_, fun hencoding => ?_⟩
    · show max v.bytes total < 2 ^ 64
      omega
    · obtain ⟨hle, -⟩ := hidentity hencoding
      obtain ⟨hlen, htotal, hstored⟩ := htotal hencoding
      have hlen := UInt64.le_iff_toNat_le.mp hlen
      refine ⟨?_, hstored⟩
      show max v.bytes total ≤ stored.toNat
      omega
  · refine Runs.ite (fun htaken => Runs.pure fun v hv => ?_) fun hfailed => Runs.throw fun v hv => ?_
    · rwa [if_pos htaken] at hv
    · rwa [if_neg hfailed] at hv

theorem stageLoop_runs (items : List Item) (s : Progress)
    (hlen : s.len.toNat = s.chunks.flatten.length) :
    Runs (contract upload.encoding) (Staging upload.encoding s.len s.outstanding)
      (stageLoop enc extent upload items s)
      (fun s' => Staging upload.encoding s'.len s'.outstanding) (Live upload.encoding) := by
  induction items generalizing s with
  | nil => exact Runs.bind (pause_runs fun _ => Staging.live) fun _ => Runs.pure fun _ => id
  | cons item rest ih =>
    refine Runs.bind (pause_runs fun _ => Staging.live) fun _ => ?_
    cases item with
    | error message => exact Runs.throw fun _ => Staging.live
    | ok chunk =>
      refine Runs.ite (fun _ => Runs.throw fun _ => Staging.live) fun hoverflow => ?_
      refine Runs.ite (fun _ => Runs.throw fun _ => Staging.live) fun _ => ?_
      have hsum : (s.len + UInt64.ofNat chunk.length).toNat = s.len.toNat + chunk.length := by
        rw [UInt64.toNat_add, UInt64.toNat_ofNat', Nat.add_mod_mod, Nat.mod_eq_of_lt (by omega)]
      have htotal : (s.chunks ++ [chunk]).flatten.length =
          (s.len + UInt64.ofNat chunk.length).toNat := by
        rw [hsum, hlen, List.flatten_append, List.length_append]
        simp
      refine Runs.bind (extendTo_runs _ _) fun outstanding => ?_
      -- the extension may not have been enough only when the loop failed
      by_cases henough : s.len + UInt64.ofNat chunk.length ≤ outstanding
      · refine Runs.bind (write_runs (fun v hv => hv.1) fun hencoding => ?_) fun _ =>
          ih ⟨s.len + UInt64.ofNat chunk.length, s.chunks ++ [chunk], outstanding⟩ htotal.symm
        refine ⟨UInt64.le_iff_toNat_le.mpr ?_, ?_, henough⟩
        · show s.len.toNat ≤ (s.len + UInt64.ofNat chunk.length).toNat
          omega
        rw [hencoding]
        exact htotal.le
      · exact fun v hv => absurd hv.2 henough

theorem finish_runs (s : Progress) :
    Runs (contract upload.encoding) (Staging upload.encoding s.len s.outstanding)
      (finish enc upload s)
      (fun stored => Finished upload.encoding stored s.outstanding) (Live upload.encoding) := by
  have hmoved : ∀ v, Staging upload.encoding s.len s.outstanding v → v.moved = false :=
    fun v ⟨_, _, _, _, hmoved, _⟩ => hmoved
  have hflush : Runs (contract upload.encoding) (Staging upload.encoding s.len s.outstanding)
      (call .flush) (fun _ => Staging upload.encoding s.len s.outstanding)
      (Live upload.encoding) :=
    call_keeps (fun _ => Staging.live) (fun v hv _ => hmoved v hv) fun _ _ => rfl
  unfold finish
  cases hencoding : upload.encoding with
  | identity =>
    rw [hencoding] at hflush
    refine Runs.bind hflush fun _ => Runs.pure fun v hv => ?_
    obtain ⟨r, hr, hstate, houtstanding, hnot, -, hidentity⟩ := hv
    obtain ⟨hbytes, hle⟩ := hidentity rfl
    exact ⟨r, hr, hstate, houtstanding, hnot, hbytes, fun _ => hle⟩
  | zstd =>
    rw [hencoding] at hflush hmoved
    refine Runs.bind (write_runs (fun _ => id) nofun) fun _ => Runs.bind hflush fun _ => ?_
    refine Runs.bind (call_runs (Q := fun n v => Finished .zstd (UInt64.ofNat n) s.outstanding v)
      (fun _ => Staging.live) (fun v hv _ => hmoved v hv) fun v n hv hanswer => ?_) fun n =>
        Runs.pure fun _ => id
    obtain ⟨r, hr, hstate, houtstanding, hnot, hsmall, -⟩ := hv
    have hle : n ≤ v.bytes := hanswer rfl n rfl
    refine ⟨r, hr, hstate, houtstanding, hnot, ?_, nofun⟩
    show min v.bytes n ≤ (UInt64.ofNat n).toNat
    rw [UInt64.toNat_ofNat_of_lt' (show n < 2 ^ 64 by omega)]
    omega

theorem topUp_runs (stored outstanding : UInt64) :
    Runs (contract encoding) (Finished encoding stored outstanding) (topUp stored outstanding)
      (fun _ => Covered .temporary stored) (Live encoding) := by
  refine Runs.ite (fun hmore => ?_) fun henough => Runs.pure fun v hv => ?_
  · refine Runs.bind (Q := fun admitted v => if admitted = true then Covered .temporary stored v
      else Live encoding v) (Runs.perform fun v hv => ?_) fun admitted => Runs.ite
        (fun hadmitted => Runs.pure fun v hv => ?_) fun hrefused => Runs.throw fun v hv => ?_
    · have hlive := hv.live
      obtain ⟨r, hr, hstate, rfl, hmoved, hbytes, -⟩ := hv
      refine ⟨r, hr, ⟨r.add (stored - r.outstanding), rfl, hstate, ?_, hbytes, ?_, nofun⟩, hlive⟩
      · have hsub := UInt64.toNat_sub_of_le _ _ (UInt64.le_of_lt hmore)
        have hlt := UInt64.lt_iff_toNat_lt.mp hmore
        have hmax := stored.toNat_lt
        rw [UInt64.le_iff_toNat_le, Reservation.toNat_add, hsub]
        omega
      · exact fun h => absurd (hmoved.symm.trans h) nofun
    · rwa [if_pos hadmitted] at hv
    · rwa [if_neg hrefused] at hv
  · obtain ⟨r, hr, hstate, rfl, hmoved, hbytes, -⟩ := hv
    exact ⟨r, hr, hstate, UInt64.not_lt.mp henough, hbytes,
      fun h => absurd (hmoved.symm.trans h) nofun, nofun⟩

/-- Before the temporary file is the reservation's. -/
def Admitted (outstanding : UInt64) (v : View) : Prop :=
  v = ⟨some ⟨outstanding, .vacant⟩, 0, false⟩

theorem Admitted.live {outstanding : UInt64} {v : View} (h : Admitted outstanding v) :
    Live encoding v := by
  cases h
  exact ⟨_, rfl, nofun, fun _ => rfl, nofun, fun _ => Nat.zero_le _⟩

theorem Covered.not_moved {stored : UInt64} {v : View} (h : Covered .temporary stored v) :
    v.moved = false := by
  obtain ⟨r, -, -, -, -, hmoved, -⟩ := h
  exact Bool.eq_false_iff.mpr fun h => nomatch hmoved h

theorem stageReserved_runs (stream : List Item) (outstanding : UInt64) :
    Runs (contract upload.encoding) (Admitted outstanding)
      (stageReserved enc extent upload stream outstanding)
      (fun staged => Covered .temporary staged.2) (Live upload.encoding) := by
  refine Runs.bind (Q := fun _ => Admitted outstanding) (call_keeps (fun _ => Admitted.live)
    (fun v hv _ => by rw [hv]) fun _ _ => rfl) fun _ => ?_
  refine Runs.bind (Q := fun _ => Staging upload.encoding 0 outstanding)
    (Runs.perform fun v hv => ?_) fun _ => ?_
  · cases hv
    refine ⟨_, rfl, _, rfl, rfl, rfl, rfl, show 0 < 2 ^ 64 by decide, fun _ => ⟨Nat.zero_le _, ?_⟩⟩
    exact UInt64.le_iff_toNat_le.mpr (Nat.zero_le _)
  refine Runs.bind (call_keeps (fun _ => Staging.live) (fun v ⟨_, _, _, _, hmoved, _⟩ _ => hmoved)
    fun _ _ => rfl) fun _ => ?_
  refine Runs.bind (stageLoop_runs stream ⟨0, [], outstanding⟩ rfl) fun s => ?_
  refine Runs.bind (finish_runs s) fun stored => Runs.bind (topUp_runs stored s.outstanding) fun _ => ?_
  exact Runs.ite (fun _ => Runs.bind (call_keeps (fun _ => Covered.live)
    (fun v hv _ => hv.not_moved) fun _ _ => rfl) fun _ => Runs.pure fun _ => id)
    fun _ => Runs.pure fun _ => id

/-! ### Publishing -/

/-- What `publish_reserved` reports is where the body is. -/
def Installed (stored : UInt64) (installed : Bool) : View → Prop :=
  Covered (if installed then .published else .vacant) (if installed then stored else 0)

theorem removeStaged_runs (stored : UInt64) :
    Runs (contract encoding) (Covered .temporary stored) removeStaged (Installed stored)
      (Live encoding) := by
  refine Runs.bind (Q := fun _ v => v.bytes = 0 ∧ v.moved = false ∧ ∃ r, v.reservation = some r)
    (call_runs (fun _ => Covered.live) (fun v hv _ => hv.not_moved) fun v n hv _ => ?_) fun _ =>
    Runs.bind (Q := fun _ => Installed stored false) (Runs.perform fun v hv => ?_) fun _ =>
      Runs.pure fun _ => id
  · have hmoved := hv.not_moved
    obtain ⟨r, hr, -⟩ := hv
    exact ⟨rfl, hmoved, r, hr⟩
  · obtain ⟨hbytes, hmoved, r, hr⟩ := hv
    exact ⟨r, hr, _, rfl, rfl, UInt64.le_iff_toNat_le.mpr (Nat.zero_le _), hbytes.le,
      fun h => absurd (hmoved.symm.trans h) nofun, fun _ => hbytes⟩

theorem publishReserved_runs (artifact : ArtifactId) (digest : Digest) (stored : UInt64) :
    Runs (contract encoding) (Covered .temporary stored) (publishReserved upload artifact digest)
      (Installed stored) (Live encoding) := by
  have hkeeps : ∀ {c : FsCall}, (∀ n (v : View), View.after c (.ok n) v = v) →
      Runs (contract encoding) (Covered .temporary stored) (call c)
        (fun _ => Covered .temporary stored) (Live encoding) := fun hafter =>
    call_keeps (fun _ => Covered.live) (fun v hv _ => hv.not_moved) hafter
  refine Runs.ite (fun _ => Runs.throw fun _ => Covered.live) fun _ => ?_
  refine Runs.bind (hkeeps fun _ _ => rfl) fun _ => Runs.bind (hkeeps fun _ _ => rfl) fun there => ?_
  refine Runs.ite (fun _ => removeStaged_runs stored) fun _ => ?_
  refine Runs.bind (Q := fun answer v => match answer with
    | .ok _ => ∃ r, v.reservation = some r ∧ stored ≤ r.outstanding ∧ v.bytes ≤ stored.toNat
    | .error _ => Covered .temporary stored v) (Runs.perform fun v hv => ?_) fun answer => ?_
  · refine ⟨hv.live, fun _ => hv.not_moved, fun answer _ => ?_⟩
    cases answer with
    | ok n =>
      obtain ⟨r, hr, -, hstored, hbytes, -⟩ := hv
      exact ⟨r, hr, hstored, hbytes⟩
    | error kind => exact hv
  cases answer with
  | ok n =>
    -- the rename is reported and marked without an await in between
    refine Runs.bind (Q := fun _ => Installed stored true) (Runs.perform fun v hv => ?_) fun _ => ?_
    · obtain ⟨r, hr, hstored, hbytes⟩ := hv
      exact ⟨r, hr, _, rfl, rfl, hstored, hbytes, fun _ => rfl, nofun⟩
    · exact Runs.ite (fun _ => Runs.bind (call_keeps (fun _ => Covered.live)
        (fun v hv hne => absurd rfl hne) fun _ _ => rfl) fun _ => Runs.pure fun _ => id)
          fun _ => Runs.pure fun _ => id
  | error kind =>
    cases kind with
    | alreadyExists => exact removeStaged_runs stored
    | notFound => exact Runs.throw fun _ => Covered.live
    | other => exact Runs.throw fun _ => Covered.live

theorem commitStaged_runs (artifact : ArtifactId) (digest : Digest) (stored : UInt64) :
    Runs (contract encoding) (Covered .temporary stored) (commitStaged upload artifact digest stored)
      (fun _ => Gone) (fun v => Live encoding v ∨ Gone v) := by
  have hleft : ∀ v, Live encoding v → Live encoding v ∨ Gone v := fun _ => .inl
  have hright : ∀ v, Gone v → Live encoding v ∨ Gone v := fun _ => .inr
  have hpause : Runs (contract encoding) (Covered .temporary stored) (perform .pause : Upload Bool)
      (fun _ => Covered .temporary stored) (fun v => Live encoding v ∨ Gone v) :=
    (pause_runs fun _ => Covered.live).conseq (fun _ => id) (fun _ _ => id) hleft
  have hattempt : ∀ {state : ReservationState} {stored : UInt64},
      Runs (contract encoding) (Covered state stored) (orDiscard (attempt .pause (.io .other)))
        (fun _ => Covered state stored) (fun v => Live encoding v ∨ Gone v) :=
    (orDiscard_runs (attempt_pause_runs fun _ => Covered.live)).conseq (fun _ => id)
      (fun _ _ => id) hright
  refine Runs.bind hpause fun _ => Runs.bind hattempt fun _ => Runs.bind hpause fun _ => ?_
  refine Runs.bind ((orDiscard_runs (publishReserved_runs artifact digest stored)).conseq
    (fun _ => id) (fun _ _ => id) hright) fun installed => ?_
  refine Runs.bind (hattempt) fun _ => Runs.perform fun v hv => ?_
  obtain ⟨r, hr, hstate, hstored, hbytes, -⟩ := hv
  refine ⟨r, hr, ?_, hbytes, hbytes.trans (UInt64.le_iff_toNat_le.mp hstored), rfl⟩
  rw [hstate]
  split <;> nofun

/-- Wherever it awaits, the future of an upload may be dropped. -/
theorem publishOrReject_continues (target : PublicationTarget) (stream : List Item) :
    Continues upload.encoding (publishOrReject enc extent upload target stream)
      ⟨some .new, 0, false⟩ := by
  have hruns : Runs (contract upload.encoding) (· = ⟨some .new, 0, false⟩)
      (publishOrReject enc extent upload target stream)
      (fun _ v => Live upload.encoding v ∨ Gone v) (fun v => Live upload.encoding v ∨ Gone v) := by
    refine Runs.bind (Q := fun admitted v => if admitted = true
      then Admitted (saturatingAdd 0 (ArtifactFiles.initial extent upload)) v
      else Admitted 0 v) (Runs.perform fun v hv => ?_) fun admitted => ?_
    · cases hv
      exact ⟨.new, rfl, rfl, rfl⟩
    refine Runs.ite (fun hadmitted => ?_) fun hrefused => Runs.pure fun v hv => ?_
    · subst hadmitted
      refine Runs.bind ((orDiscard_runs (stageReserved_runs stream _)).conseq (fun _ => id)
        (fun _ _ => id) fun _ => .inr) fun staged => ?_
      exact (commitStaged_runs _ staged.1 staged.2).conseq (fun _ => id) (fun _ _ => .inr)
        fun _ => id
    · rw [if_neg hrefused] at hv
      exact .inl hv.live
  have hend : ∀ v, Live upload.encoding v ∨ Gone v →
      ∀ r, v.reservation = some r → Droppable upload.encoding r v := by
    rintro v (⟨r', hr', hdroppable⟩ | hgone) r hr
    · rw [hr'] at hr
      cases hr
      exact hdroppable
    · rw [hgone] at hr
      cases hr
  refine Future.wp_mono ?_ (hruns _ rfl)
  rintro (e | a) v h
  · exact hend v h
  · exact hend v h

end Assertions

end Cancellation

end Flywheel
