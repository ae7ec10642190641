import Flywheel.Shard.Machine

/-!
# What one step can do

Every invariant of the shard is derived from the lemmas of this module; no proof above it
unfolds a step function.

- `PublishFrom`, `LocateFrom`, `MaintainFrom`, … : for each program counter, the step or
  the two steps that lead to it, with what the task saw and did on the way.
- `step_from`: a task stays in its operation, so the tables above are all the ways to get to
  a program counter.
- `step_to_published`, `step_to_located`, `step_to_deleted`: how operations return.
-/

set_option autoImplicit false

namespace Flywheel

open Lib

variable {ι : Type} [DecidableEq ι] {E : Env ι} {i : ι} {e : Event} {s s' : Shared ι} {t : Task}

/-! ## Publication -/

/-- How a publication gets from `pc` to each program counter. -/
def PublishFrom (E : Env ι) (i : ι) (r : PublishRequest) (s : Shared ι) (pc : PublishPc)
    (s' : Shared ι) : PublishPc → Prop
  | .stageDir => False
  | .stageOpen => pc = .stageDir ∧ s' = s.onDisk (·.mkdirAll (tmpDir r.channel))
  | .stageWrite =>
    pc = .stageOpen ∧ ∃ d, s.disk.createNew (r.part E i) = some d ∧ s' = { s with disk := d }
  | .stageSync => pc = .stageWrite ∧ s' = s.onDisk (·.write (r.part E i) (r.stored E))
  | .fenceGate _ =>
    pc = .stageSync ∧ s' = s.syncDisk r.durability (·.syncFile (r.part E i))
  | .fenceLock stagedAt g => pc = .fenceGate stagedAt ∧ s' = (s.gate r.channel).1 ∧ g = (s.gate r.channel).2
  | .fenceCheck stagedAt g => pc = .fenceLock stagedAt g ∧ s.lockRead g i = some s'
  | .stripe f =>
    pc = .fenceCheck f.stagedAt f.gate ∧ s' = s ∧
      ∃ record, s.channel r.channel = some record ∧ record.state = .active
  | .publishDir f =>
    pc = .stripe f ∧ s.lockStripe (E.stripe r.channel (r.artifact E)) i = some s'
  | .tryExists f =>
    pc = .publishDir f ∧ E.sha256 r.body = (r.artifact E).digest ∧
      s' = s.onDisk (·.mkdirAll (shardDir r.channel (r.artifact E)))
  | .removeStaged f => pc = .tryExists f ∧ s' = s ∧ (s.kindAt (r.final E)).isSome
  | .rename f => pc = .tryExists f ∧ s' = s ∧ s.kindAt (r.final E) = none
  | .syncParent f =>
    pc = .rename f ∧
      ∃ d, s.disk.rename (r.part E i) (r.final E) = some d ∧ s' = { s with disk := d }
  | .commitRead f =>
    (pc = .removeStaged f ∧ s' = s.onDisk (·.unlink (r.part E i))) ∨
      (pc = .syncParent f ∧
        s' = s.syncDisk r.durability (·.syncDir (shardDir r.channel (r.artifact E))))
  | .commitWrite f found =>
    pc = .commitRead f ∧ s' = s ∧ found = (s.record r.channel (r.artifact E)).isSome
  | .discard =>
    (s' = s ∧ (pc = .stageOpen ∨ pc = .stageWrite ∨ pc = .stageSync)) ∨
      ∃ stagedAt g, pc = .fenceCheck stagedAt g ∧ s' = s.unlockRead g i
  | .discardLocked f =>
    s' = s ∧ (pc = .publishDir f ∨ pc = .tryExists f ∨ pc = .removeStaged f ∨ pc = .rename f)

theorem publishStep_to {r : PublishRequest} {pc pc' : PublishPc}
    (h : publishStep E i r pc e s = some (s', .publish r pc')) :
    PublishFrom E i r s pc s' pc' := by
  revert h
  fun_cases publishStep E i r pc e s <;> intro h <;>
    simp only [Option.some.injEq, Prod.mk.injEq, reduceCtorEq, and_false,
      Option.map_eq_some_iff] at h <;>
    grind [PublishFrom, Option.isSome_iff_ne_none]

theorem publishStep_task {r : PublishRequest} {pc : PublishPc} {t' : Task}
    (h : publishStep E i r pc e s = some (s', t')) :
    (∃ pc', t' = .publish r pc') ∨ ∃ o, t' = .done o := by
  revert h
  fun_cases publishStep E i r pc e s <;> intro h <;>
    simp only [Option.some.injEq, Prod.mk.injEq, reduceCtorEq, Option.map_eq_some_iff] at h <;>
    grind

/-- How a publication returns `o`. -/
def PublishEnd (E : Env ι) (i : ι) (r : PublishRequest) (s : Shared ι) (pc : PublishPc)
    (s' : Shared ι) (o : Outcome) : Prop :=
  (∃ f found now, pc = .commitWrite f found ∧ o = .published r !found ∧
    s' = r.release E i f (s.commit r.durability (r.batch E f found now))) ∨
  (o = .failed ∧
    ((s' = s ∧ (pc = .stageDir ∨ pc = .discard)) ∨
      (s' = s.onDisk (·.unlink (r.part E i)) ∧ pc = .discard) ∨
      (∃ f, s' = r.release E i f s ∧ (pc = .syncParent f ∨ pc = .commitRead f ∨
        (∃ found, pc = .commitWrite f found) ∨ pc = .discardLocked f)) ∨
      ∃ f, s' = r.release E i f (s.onDisk (·.unlink (r.part E i))) ∧ pc = .discardLocked f))

theorem publishStep_end {r : PublishRequest} {pc : PublishPc} {o : Outcome}
    (h : publishStep E i r pc e s = some (s', .done o)) : PublishEnd E i r s pc s' o := by
  revert h
  fun_cases publishStep E i r pc e s <;> intro h <;>
    simp only [Option.some.injEq, Prod.mk.injEq, reduceCtorEq, and_false,
      Option.map_eq_some_iff] at h <;>
    grind [PublishEnd]

/-- Only a check that did not fail goes on to the rename or the removal. -/
theorem event_of_tryExists {r : PublishRequest} {f f' : Fence} {pc' : PublishPc}
    (h : publishStep E i r (.tryExists f) e s = some (s', .publish r pc'))
    (hpc : pc' = .removeStaged f' ∨ pc' = .rename f') : ∃ now, e = .run now := by
  cases e with
  | run now => exact ⟨now, rfl⟩
  | fail =>
    cases h
    rcases hpc with hpc | hpc <;> cases hpc
  | start op => cases h
  | remove p => cases h

/-! ## Lookup -/

/-- How a lookup gets from `pc` to each program counter. -/
def LocateFrom (E : Env ι) (i : ι) (c : ChannelId) (a : ArtifactId) (s : Shared ι)
    (pc : LocatePc) (s' : Shared ι) : LocatePc → Prop
  | .read => False
  | .open m => pc = .read ∧ s' = s ∧ s.record c a = some m
  | .stripe => (∃ m, pc = .open m) ∧ s' = s ∧ s.body c a = none
  | .removeRead => pc = .stripe ∧ s.lockStripe (E.stripe c a) i = some s'
  | .removeWrite found => pc = .removeRead ∧ s' = s ∧ found = s.record c a

/-- How a lookup returns `o`. -/
def LocateEnd (E : Env ι) (c : ChannelId) (a : ArtifactId) (s : Shared ι) (pc : LocatePc)
    (s' : Shared ι) (o : Outcome) : Prop :=
  (pc = .read ∧ s' = s ∧ s.record c a = none ∧ o = .located c a none) ∨
  (∃ m bytes, pc = .open m ∧ s' = s ∧ s.body c a = some bytes ∧
    o = .located c a (some (m, bytes))) ∨
  (∃ found, pc = .removeWrite found ∧ o = .located c a none ∧
    s' = (s.commit .bestEffort (·.removeBatch c a found)).unlockStripe (E.stripe c a)) ∨
  (o = .failed ∧
    ((s' = s ∧ (pc = .read ∨ ∃ m, pc = .open m)) ∨
      (s' = s.unlockStripe (E.stripe c a) ∧
        (pc = .removeRead ∨ ∃ found, pc = .removeWrite found))))

omit [DecidableEq ι] in
theorem locateStep_to {c : ChannelId} {a : ArtifactId} {pc pc' : LocatePc}
    (h : locateStep E i c a pc e s = some (s', .locate c a pc')) :
    LocateFrom E i c a s pc s' pc' := by
  revert h
  fun_cases locateStep E i c a pc e s <;> intro h <;>
    simp only [Option.some.injEq, Prod.mk.injEq, reduceCtorEq, and_false,
      Option.map_eq_some_iff] at h <;>
    grind [LocateFrom]

omit [DecidableEq ι] in
theorem locateStep_task {c : ChannelId} {a : ArtifactId} {pc : LocatePc} {t' : Task}
    (h : locateStep E i c a pc e s = some (s', t')) :
    (∃ pc', t' = .locate c a pc') ∨ ∃ o, t' = .done o := by
  revert h
  fun_cases locateStep E i c a pc e s <;> intro h <;>
    simp only [Option.some.injEq, Prod.mk.injEq, reduceCtorEq, Option.map_eq_some_iff] at h <;>
    grind

omit [DecidableEq ι] in
theorem locateStep_end {c : ChannelId} {a : ArtifactId} {pc : LocatePc} {o : Outcome}
    (h : locateStep E i c a pc e s = some (s', .done o)) : LocateEnd E c a s pc s' o := by
  revert h
  fun_cases locateStep E i c a pc e s <;> intro h <;>
    simp only [Option.some.injEq, Prod.mk.injEq, reduceCtorEq, and_false,
      Option.map_eq_some_iff] at h <;>
    grind [LocateEnd]

/-! ## Maintenance -/

/-- How the handling of a candidate gets from `pc` to each program counter. -/
def MaintainFrom (E : Env ι) (i : ι) (c : ChannelId) (candidate : Candidate)
    (decision : Decision) (s : Shared ι) (pc : MaintainPc) (s' : Shared ι) : MaintainPc → Prop
  | .stripe => False
  | .requeueRead =>
    pc = .stripe ∧ s.lockStripe (E.stripe c candidate.artifact) i = some s' ∧
      ∃ new, decision = .requeue new
  | .requeueWrite m =>
    pc = .requeueRead ∧ s' = s ∧ s.record c candidate.artifact = some m ∧
      m.eligibleAt = candidate.eligibleAt
  | .preRead =>
    pc = .stripe ∧ s.lockStripe (E.stripe c candidate.artifact) i = some s' ∧ decision = .evict
  | .unlink =>
    pc = .preRead ∧ s' = s ∧
      (s.record c candidate.artifact).map (·.eligibleAt) = some candidate.eligibleAt
  | .evictRead =>
    (pc = .preRead ∧ s' = s ∧
      (s.record c candidate.artifact).map (·.eligibleAt) ≠ some candidate.eligibleAt) ∨
    (pc = .unlink ∧ s' = s.onDisk (·.unlink (path c candidate.artifact)))
  | .evictWrite found => pc = .evictRead ∧ s' = s ∧ found = s.record c candidate.artifact

/-- How the handling of a candidate ends. -/
def MaintainEnd (E : Env ι) (c : ChannelId) (candidate : Candidate) (decision : Decision)
    (s : Shared ι) (pc : MaintainPc) (s' : Shared ι) (o : Outcome) : Prop :=
  (o = .ok ∧ pc = .requeueRead ∧ s' = s.unlockStripe (E.stripe c candidate.artifact)) ∨
  (o = .ok ∧ ∃ m new, pc = .requeueWrite m ∧ decision = .requeue new ∧
    s' = (s.commit .bestEffort
      (·.requeueBatch c candidate.artifact m candidate.eligibleAt new)).unlockStripe
        (E.stripe c candidate.artifact)) ∨
  (o = .ok ∧ ∃ found, pc = .evictWrite found ∧
    s' = (s.commit .bestEffort
      (fun x => (x.evictBatch c candidate.artifact found candidate.eligibleAt).1)).unlockStripe
        (E.stripe c candidate.artifact)) ∨
  (o = .failed ∧ pc ≠ .stripe ∧ s' = s.unlockStripe (E.stripe c candidate.artifact))

omit [DecidableEq ι] in
theorem maintainStep_to {c : ChannelId} {candidate : Candidate} {decision : Decision}
    {pc pc' : MaintainPc}
    (h : maintainStep E i c candidate decision pc e s =
      some (s', .maintain c candidate decision pc')) :
    MaintainFrom E i c candidate decision s pc s' pc' := by
  revert h
  fun_cases maintainStep E i c candidate decision pc e s <;> intro h <;>
    simp only [Option.some.injEq, Prod.mk.injEq, reduceCtorEq, and_false,
      Option.map_eq_some_iff] at h <;>
    grind [MaintainFrom]

omit [DecidableEq ι] in
theorem maintainStep_task {c : ChannelId} {candidate : Candidate} {decision : Decision}
    {pc : MaintainPc} {t' : Task}
    (h : maintainStep E i c candidate decision pc e s = some (s', t')) :
    (∃ pc', t' = .maintain c candidate decision pc') ∨ ∃ o, t' = .done o := by
  revert h
  fun_cases maintainStep E i c candidate decision pc e s <;> intro h <;>
    simp only [Option.some.injEq, Prod.mk.injEq, reduceCtorEq, Option.map_eq_some_iff] at h <;>
    grind

omit [DecidableEq ι] in
theorem maintainStep_end {c : ChannelId} {candidate : Candidate} {decision : Decision}
    {pc : MaintainPc} {o : Outcome}
    (h : maintainStep E i c candidate decision pc e s = some (s', .done o)) :
    MaintainEnd E c candidate decision s pc s' o := by
  revert h
  fun_cases maintainStep E i c candidate decision pc e s <;> intro h <;>
    simp only [Option.some.injEq, Prod.mk.injEq, reduceCtorEq, and_false,
      Option.map_eq_some_iff] at h <;>
    grind [MaintainEnd]

/-! ## Startup recovery -/

/-- How the check of one file gets from `pc` to each program counter. -/
def ReconcileFrom (E : Env ι) (i : ι) (c : ChannelId) (a : ArtifactId) (s : Shared ι)
    (pc : ReconcilePc) (s' : Shared ι) : ReconcilePc → Prop
  | .read => False
  | .stripe => pc = .read ∧ s' = s
  | .reread => pc = .stripe ∧ s.lockStripe (E.stripe c a) i = some s'
  | .remove => pc = .reread ∧ s' = s ∧ s.record c a = none

/-- How the check of one file ends. -/
def ReconcileEnd (E : Env ι) (c : ChannelId) (a : ArtifactId) (s : Shared ι)
    (pc : ReconcilePc) (s' : Shared ι) (o : Outcome) : Prop :=
  (o = .ok ∨ o = .failed) ∧
    ((pc = .read ∧ s' = s) ∨
      ((pc = .reread ∨ pc = .remove) ∧ s' = s.unlockStripe (E.stripe c a)) ∨
      (pc = .remove ∧ s' = (s.onDisk (·.unlink (path c a))).unlockStripe (E.stripe c a)))

omit [DecidableEq ι] in
theorem reconcileStep_to {c : ChannelId} {a : ArtifactId} {pc pc' : ReconcilePc}
    (h : reconcileStep E i c a pc e s = some (s', .reconcile c a pc')) :
    ReconcileFrom E i c a s pc s' pc' := by
  revert h
  fun_cases reconcileStep E i c a pc e s <;> intro h <;>
    simp only [Option.some.injEq, Prod.mk.injEq, reduceCtorEq, and_false,
      Option.map_eq_some_iff] at h <;>
    grind [ReconcileFrom, Option.isSome_iff_ne_none]

omit [DecidableEq ι] in
theorem reconcileStep_task {c : ChannelId} {a : ArtifactId} {pc : ReconcilePc} {t' : Task}
    (h : reconcileStep E i c a pc e s = some (s', t')) :
    (∃ pc', t' = .reconcile c a pc') ∨ ∃ o, t' = .done o := by
  revert h
  fun_cases reconcileStep E i c a pc e s <;> intro h <;>
    simp only [Option.some.injEq, Prod.mk.injEq, reduceCtorEq, Option.map_eq_some_iff] at h <;>
    grind

omit [DecidableEq ι] in
theorem reconcileStep_end {c : ChannelId} {a : ArtifactId} {pc : ReconcilePc} {o : Outcome}
    (h : reconcileStep E i c a pc e s = some (s', .done o)) :
    ReconcileEnd E c a s pc s' o := by
  revert h
  fun_cases reconcileStep E i c a pc e s <;> intro h <;>
    simp only [Option.some.injEq, Prod.mk.injEq, reduceCtorEq, and_false,
      Option.map_eq_some_iff] at h <;>
    grind [ReconcileEnd]

/-! ## References -/

/-- How a reference operation gets from `pc` to each program counter. -/
def ReferenceFrom (i : ι) (c : ChannelId) (s : Shared ι) (pc : ReferencePc) (s' : Shared ι) :
    ReferencePc → Prop
  | .fenceGate => False
  | .fenceLock g => pc = .fenceGate ∧ s' = (s.gate c).1 ∧ g = (s.gate c).2
  | .fenceCheck g => pc = .fenceLock g ∧ s.lockRead g i = some s'
  | .write g =>
    pc = .fenceCheck g ∧ s' = s ∧ ∃ record, s.channel c = some record ∧ record.state = .active

/-- How a reference operation ends. -/
def ReferenceEnd (i : ι) (c : ChannelId) (name : Bytes) (op : ReferenceOp) (s : Shared ι)
    (pc : ReferencePc) (s' : Shared ι) (o : Outcome) : Prop :=
  (o = .ok ∧ ∃ g now, pc = .write g ∧ s' = (op.commit c name now s).unlockRead g i) ∨
  (o = .failed ∧ ∃ g, (pc = .fenceCheck g ∨ pc = .write g) ∧ s' = s.unlockRead g i)

theorem referenceStep_to {c : ChannelId} {name : Bytes} {op : ReferenceOp} {pc pc' : ReferencePc}
    (h : referenceStep i c name op pc e s = some (s', .reference c name op pc')) :
    ReferenceFrom i c s pc s' pc' := by
  revert h
  fun_cases referenceStep i c name op pc e s <;> intro h <;>
    simp only [Option.some.injEq, Prod.mk.injEq, reduceCtorEq, and_false,
      Option.map_eq_some_iff] at h <;>
    grind [ReferenceFrom]

theorem referenceStep_task {c : ChannelId} {name : Bytes} {op : ReferenceOp} {pc : ReferencePc}
    {t' : Task} (h : referenceStep i c name op pc e s = some (s', t')) :
    (∃ pc', t' = .reference c name op pc') ∨ ∃ o, t' = .done o := by
  revert h
  fun_cases referenceStep i c name op pc e s <;> intro h <;>
    simp only [Option.some.injEq, Prod.mk.injEq, reduceCtorEq, Option.map_eq_some_iff] at h <;>
    grind

theorem referenceStep_end {c : ChannelId} {name : Bytes} {op : ReferenceOp} {pc : ReferencePc}
    {o : Outcome} (h : referenceStep i c name op pc e s = some (s', .done o)) :
    ReferenceEnd i c name op s pc s' o := by
  revert h
  fun_cases referenceStep i c name op pc e s <;> intro h <;>
    simp only [Option.some.injEq, Prod.mk.injEq, reduceCtorEq, and_false,
      Option.map_eq_some_iff] at h <;>
    grind [ReferenceEnd]

/-! ## Registration -/

/-- How a registration gets from `pc` to each program counter. -/
def RegisterFrom (record : ChannelRecord) (s : Shared ι) (pc : RegisterPc) (s' : Shared ι) :
    RegisterPc → Prop
  | .read => False
  | .write => pc = .read ∧ s' = s ∧ s.channel record.id = none
  | .gate => pc = .write ∧ s' = s.commit .durable (·.storeChannel record)

/-- How a registration ends. -/
def RegisterEnd (record : ChannelRecord) (s : Shared ι) (pc : RegisterPc) (s' : Shared ι)
    (o : Outcome) : Prop :=
  (o = .ok ∧ pc = .gate ∧ s' = (s.gate record.id).1) ∨
  (o = .failed ∧ (pc = .read ∨ pc = .write) ∧ s' = s)

omit [DecidableEq ι] in
theorem registerStep_to {record : ChannelRecord} {pc pc' : RegisterPc}
    (h : registerStep record pc e s = some (s', .register record pc')) :
    RegisterFrom record s pc s' pc' := by
  revert h
  fun_cases registerStep record pc e s <;> intro h <;>
    simp only [Option.some.injEq, Prod.mk.injEq, reduceCtorEq, and_false] at h <;>
    grind [RegisterFrom, Option.isSome_iff_ne_none]

omit [DecidableEq ι] in
theorem registerStep_task {record : ChannelRecord} {pc : RegisterPc} {t' : Task}
    (h : registerStep record pc e s = some (s', t')) :
    (∃ pc', t' = .register record pc') ∨ ∃ o, t' = .done o := by
  revert h
  fun_cases registerStep record pc e s <;> intro h <;>
    simp only [Option.some.injEq, Prod.mk.injEq, reduceCtorEq] at h <;>
    grind

omit [DecidableEq ι] in
theorem registerStep_end {record : ChannelRecord} {pc : RegisterPc} {o : Outcome}
    (h : registerStep record pc e s = some (s', .done o)) : RegisterEnd record s pc s' o := by
  revert h
  fun_cases registerStep record pc e s <;> intro h <;>
    simp only [Option.some.injEq, Prod.mk.injEq, reduceCtorEq, and_false] at h <;>
    grind [RegisterEnd]

/-! ## Expiry patches -/

omit [DecidableEq ι] in
theorem authorize_eq_some {c : ChannelId} {credential : Option Bytes} {record : ChannelRecord}
    (h : authorize E s c credential = some record) :
    s.channel c = some record ∧ record.state = .active := by
  obtain ⟨hrecord, hcond⟩ := Option.filter_eq_some_iff.mp h
  simp only [Bool.and_eq_true, beq_iff_eq] at hcond
  exact ⟨hrecord, hcond.2⟩

/-- How a patch gets from `pc` to each program counter. -/
def PatchFrom (i : ι) (c : ChannelId) (s : Shared ι) (pc : PatchPc) (s' : Shared ι) :
    PatchPc → Prop
  | .authorize => False
  | .gate => pc = .authorize ∧ s' = s ∧ ∃ old, s.channel c = some old ∧ old.state = .active
  | .lock g => pc = .gate ∧ s' = (s.gate c).1 ∧ g = (s.gate c).2
  | .recheck g => pc = .lock g ∧ s.lockRead g i = some s'
  | .store g record =>
    pc = .recheck g ∧ s' = s ∧ ∃ old, s.channel c = some old ∧ old.state = .active ∧
      record = { old with expirySeconds := record.expirySeconds }

/-- How a patch ends. -/
def PatchEnd (i : ι) (s : Shared ι) (pc : PatchPc) (s' : Shared ι) (o : Outcome) : Prop :=
  (o = .ok ∧ ∃ g record, pc = .store g record ∧
    s' = (s.commit .durable (·.storeChannel record)).unlockRead g i) ∨
  (o = .failed ∧ ((pc = .authorize ∧ s' = s) ∨
    ∃ g, (pc = .recheck g ∨ ∃ record, pc = .store g record) ∧ s' = s.unlockRead g i))

theorem patchStep_to {c : ChannelId} {credential : Option Bytes} {expirySeconds : Option UInt64}
    {pc pc' : PatchPc}
    (h : patchStep E i c credential expirySeconds pc e s =
      some (s', .patch c credential expirySeconds pc')) :
    PatchFrom i c s pc s' pc' := by
  revert h
  fun_cases patchStep E i c credential expirySeconds pc e s <;> intro h <;>
    simp only [Option.some.injEq, Prod.mk.injEq, reduceCtorEq, and_false,
      Option.map_eq_some_iff] at h <;>
    grind [PatchFrom, authorize_eq_some, Option.isSome_iff_exists]

theorem patchStep_task {c : ChannelId} {credential : Option Bytes} {expirySeconds : Option UInt64}
    {pc : PatchPc} {t' : Task}
    (h : patchStep E i c credential expirySeconds pc e s = some (s', t')) :
    (∃ pc', t' = .patch c credential expirySeconds pc') ∨ ∃ o, t' = .done o := by
  revert h
  fun_cases patchStep E i c credential expirySeconds pc e s <;> intro h <;>
    simp only [Option.some.injEq, Prod.mk.injEq, reduceCtorEq, Option.map_eq_some_iff] at h <;>
    grind

theorem patchStep_end {c : ChannelId} {credential : Option Bytes} {expirySeconds : Option UInt64}
    {pc : PatchPc} {o : Outcome}
    (h : patchStep E i c credential expirySeconds pc e s = some (s', .done o)) :
    PatchEnd i s pc s' o := by
  revert h
  fun_cases patchStep E i c credential expirySeconds pc e s <;> intro h <;>
    simp only [Option.some.injEq, Prod.mk.injEq, reduceCtorEq, and_false,
      Option.map_eq_some_iff] at h <;>
    grind [PatchEnd]

/-! ## Deletion -/

/-- How a deletion gets from `pc` to each program counter. -/
def DeleteFrom (i : ι) (c : ChannelId) (s : Shared ι) (pc : DeletePc) (s' : Shared ι) :
    DeletePc → Prop
  | .authorize => False
  | .gate => pc = .authorize ∧ s' = s ∧ ∃ old, s.channel c = some old ∧ old.state = .active
  | .lock g => pc = .gate ∧ s' = (s.gate c).1 ∧ g = (s.gate c).2
  | .recheck g => pc = .lock g ∧ s.lockRead g i = some s'
  | .store g record =>
    pc = .recheck g ∧ s' = s ∧ s.channel c = some record ∧ record.state = .active
  | .resumeRead => False
  | .exclusiveGate =>
    (∃ g record, pc = .store g record ∧ s' =
      (s.commit .durable (·.storeChannel { record with state := .deleting })).unlockRead g i) ∨
    (pc = .resumeRead ∧ s' = s ∧ ∃ record, s.channel c = some record ∧ record.state = .deleting)
  | .exclusiveLock g => pc = .exclusiveGate ∧ s' = (s.gate c).1 ∧ g = (s.gate c).2
  | .deleteData g => pc = .exclusiveLock g ∧ s.lockWrite g i = some s'
  | .removeDir g =>
    (pc = .deleteData g ∧ s' = s.commit .durable (·.deleteChannelData c)) ∨
    (pc = .removeDir g ∧ ∃ p, removable s.disk c p = true ∧ s' = s.onDisk (·.unlink p))
  | .finish g => pc = .removeDir g ∧ s' = s ∧ (channelEntries s.disk c).isEmpty
  | .forget g => pc = .finish g ∧ s' = s.commit .durable (·.finishChannelDeletion c)

/-- How a deletion ends. -/
def DeleteEnd (i : ι) (c : ChannelId) (s : Shared ι) (pc : DeletePc) (s' : Shared ι)
    (o : Outcome) : Prop :=
  (o = .deleted c ∧ ∃ g, pc = .forget g ∧ s' = (s.forget c).unlockWrite g) ∨
  ((o = .ok ∨ o = .failed) ∧ (pc = .authorize ∨ pc = .resumeRead) ∧ s' = s) ∨
  (o = .failed ∧ ∃ g, (pc = .recheck g ∨ ∃ record, pc = .store g record) ∧
    s' = s.unlockRead g i) ∨
  (o = .failed ∧ ∃ g, (pc = .deleteData g ∨ pc = .removeDir g ∨ pc = .finish g) ∧
    s' = s.unlockWrite g)

theorem deleteStep_to {c : ChannelId} {credential : Option Bytes} {pc pc' : DeletePc}
    (h : deleteStep E i c credential pc e s = some (s', .delete c credential pc')) :
    DeleteFrom i c s pc s' pc' := by
  revert h
  fun_cases deleteStep E i c credential pc e s <;> intro h <;>
    simp only [Option.some.injEq, Prod.mk.injEq, reduceCtorEq, and_false,
      Option.map_eq_some_iff] at h <;>
    grind [DeleteFrom, authorize_eq_some, Option.isSome_iff_exists, Option.any_eq_true]

theorem deleteStep_task {c : ChannelId} {credential : Option Bytes} {pc : DeletePc} {t' : Task}
    (h : deleteStep E i c credential pc e s = some (s', t')) :
    (∃ pc', t' = .delete c credential pc') ∨ ∃ o, t' = .done o := by
  revert h
  fun_cases deleteStep E i c credential pc e s <;> intro h <;>
    simp only [Option.some.injEq, Prod.mk.injEq, reduceCtorEq, Option.map_eq_some_iff] at h <;>
    grind

theorem deleteStep_end {c : ChannelId} {credential : Option Bytes} {pc : DeletePc} {o : Outcome}
    (h : deleteStep E i c credential pc e s = some (s', .done o)) :
    DeleteEnd i c s pc s' o := by
  revert h
  fun_cases deleteStep E i c credential pc e s <;> intro h <;>
    simp only [Option.some.injEq, Prod.mk.injEq, reduceCtorEq, and_false,
      Option.map_eq_some_iff] at h <;>
    grind [DeleteEnd]

/-! ## Tasks -/

/-- How thread `i` gets from the task `t` to each task. -/
def Task.From (E : Env ι) (i : ι) (s : Shared ι) (t : Task) (s' : Shared ι) : Task → Prop
  | .idle => False
  | .publish r pc' =>
    (t = .idle ∧ s' = s ∧ pc' = .stageDir) ∨
      ∃ pc, t = .publish r pc ∧ PublishFrom E i r s pc s' pc'
  | .locate c a pc' =>
    (t = .idle ∧ s' = s ∧ pc' = .read) ∨
      ∃ pc, t = .locate c a pc ∧ LocateFrom E i c a s pc s' pc'
  | .maintain c candidate decision pc' =>
    (t = .idle ∧ s' = s ∧ pc' = .stripe) ∨
      ∃ pc, t = .maintain c candidate decision pc ∧
        MaintainFrom E i c candidate decision s pc s' pc'
  | .reconcile c a pc' =>
    (t = .idle ∧ s' = s ∧ pc' = .read) ∨
      ∃ pc, t = .reconcile c a pc ∧ ReconcileFrom E i c a s pc s' pc'
  | .reference c name op pc' =>
    (t = .idle ∧ s' = s ∧ pc' = .fenceGate) ∨
      ∃ pc, t = .reference c name op pc ∧ ReferenceFrom i c s pc s' pc'
  | .register record pc' =>
    (t = .idle ∧ s.issued record.id = false ∧ record.state = .active ∧ pc' = .read ∧
      s' = { s with issued := Function.update s.issued record.id true }) ∨
      ∃ pc, t = .register record pc ∧ RegisterFrom record s pc s' pc'
  | .patch c credential expirySeconds pc' =>
    (t = .idle ∧ s' = s ∧ pc' = .authorize) ∨
      ∃ pc, t = .patch c credential expirySeconds pc ∧ PatchFrom i c s pc s' pc'
  | .delete c credential pc' =>
    (t = .idle ∧ s' = s ∧ ((pc' = .authorize ∧ c ≠ .default) ∨ pc' = .resumeRead)) ∨
      ∃ pc, t = .delete c credential pc ∧ DeleteFrom i c s pc s' pc'
  | .done o =>
    (t = .idle ∧ s' = s ∧ o = .failed) ∨
    (∃ r pc, t = .publish r pc ∧ PublishEnd E i r s pc s' o) ∨
    (∃ c a pc, t = .locate c a pc ∧ LocateEnd E c a s pc s' o) ∨
    (∃ c candidate decision pc, t = .maintain c candidate decision pc ∧
      MaintainEnd E c candidate decision s pc s' o) ∨
    (∃ c a pc, t = .reconcile c a pc ∧ ReconcileEnd E c a s pc s' o) ∨
    (∃ c name op pc, t = .reference c name op pc ∧ ReferenceEnd i c name op s pc s' o) ∨
    (∃ record pc, t = .register record pc ∧ RegisterEnd record s pc s' o) ∨
    (∃ c credential expirySeconds pc, t = .patch c credential expirySeconds pc ∧
      PatchEnd i s pc s' o) ∨
    ∃ c credential pc, t = .delete c credential pc ∧ DeleteEnd i c s pc s' o

theorem startTask_from {op : Op} {t' : Task}
    (h : startTask s op = some (s', t')) : Task.From E i s .idle s' t' := by
  cases op with
  | register record =>
    rw [startTask] at h
    split at h
    · rename_i hfresh
      cases h
      exact .inl ⟨rfl, hfresh.1, hfresh.2, rfl, rfl⟩
    · cases h
  | delete c credential =>
    rw [startTask] at h
    split at h
    · cases h
      exact .inl ⟨rfl, rfl, rfl⟩
    · rename_i hc
      cases h
      exact .inl ⟨rfl, rfl, .inl ⟨rfl, hc⟩⟩
  | resume c =>
    cases h
    exact .inl ⟨rfl, rfl, .inr rfl⟩
  | _ =>
    cases h
    exact .inl ⟨rfl, rfl, rfl⟩

/-- Every step is one of the table. -/
theorem step_from {t' : Task} (h : Task.step E i e s t = some (s', t')) :
    Task.From E i s t s' t' := by
  cases t with
  | idle =>
    cases e with
    | start op => exact startTask_from h
    | _ => cases h
  | publish r pc =>
    rcases publishStep_task h with ⟨pc', rfl⟩ | ⟨o, rfl⟩
    · exact .inr ⟨pc, rfl, publishStep_to h⟩
    · exact .inr (.inl ⟨r, pc, rfl, publishStep_end h⟩)
  | locate c a pc =>
    rcases locateStep_task h with ⟨pc', rfl⟩ | ⟨o, rfl⟩
    · exact .inr ⟨pc, rfl, locateStep_to h⟩
    · exact .inr (.inr (.inl ⟨c, a, pc, rfl, locateStep_end h⟩))
  | maintain c candidate decision pc =>
    rcases maintainStep_task h with ⟨pc', rfl⟩ | ⟨o, rfl⟩
    · exact .inr ⟨pc, rfl, maintainStep_to h⟩
    · exact .inr (.inr (.inr (.inl ⟨c, candidate, decision, pc, rfl, maintainStep_end h⟩)))
  | reconcile c a pc =>
    rcases reconcileStep_task h with ⟨pc', rfl⟩ | ⟨o, rfl⟩
    · exact .inr ⟨pc, rfl, reconcileStep_to h⟩
    · exact .inr (.inr (.inr (.inr (.inl ⟨c, a, pc, rfl, reconcileStep_end h⟩))))
  | reference c name op pc =>
    rcases referenceStep_task h with ⟨pc', rfl⟩ | ⟨o, rfl⟩
    · exact .inr ⟨pc, rfl, referenceStep_to h⟩
    · exact .inr (.inr (.inr (.inr (.inr (.inl ⟨c, name, op, pc, rfl, referenceStep_end h⟩)))))
  | register record pc =>
    rcases registerStep_task h with ⟨pc', rfl⟩ | ⟨o, rfl⟩
    · exact .inr ⟨pc, rfl, registerStep_to h⟩
    · exact .inr (.inr (.inr (.inr (.inr (.inr (.inl ⟨record, pc, rfl, registerStep_end h⟩))))))
  | patch c credential expirySeconds pc =>
    rcases patchStep_task h with ⟨pc', rfl⟩ | ⟨o, rfl⟩
    · exact .inr ⟨pc, rfl, patchStep_to h⟩
    · exact .inr (.inr (.inr (.inr (.inr (.inr (.inr (.inl
        ⟨c, credential, expirySeconds, pc, rfl, patchStep_end h⟩)))))))
  | delete c credential pc =>
    rcases deleteStep_task h with ⟨pc', rfl⟩ | ⟨o, rfl⟩
    · exact .inr ⟨pc, rfl, deleteStep_to h⟩
    · exact .inr (.inr (.inr (.inr (.inr (.inr (.inr (.inr
        ⟨c, credential, pc, rfl, deleteStep_end h⟩)))))))
  | done o => cases h

/-! ## Results -/

/-- What a lookup reports, a lookup of the same artifact found. -/
theorem step_to_located {c : ChannelId} {a : ArtifactId} {hit : Option (ArtifactMetadata × Bytes)}
    (h : Task.step E i e s t = some (s', .done (.located c a hit))) :
    ∃ pc, t = .locate c a pc ∧ LocateEnd E c a s pc s' (.located c a hit) := by
  rcases step_from h with ⟨-, -, ho⟩ | ⟨r, pc, -, hend⟩ | ⟨c', a', pc, rfl, hend⟩ |
    ⟨c', candidate, decision, pc, -, hend⟩ | ⟨c', a', pc, -, hend⟩ | ⟨c', name, op, pc, -, hend⟩ |
    ⟨record, pc, -, hend⟩ | ⟨c', credential, expirySeconds, pc, -, hend⟩ |
    ⟨c', credential, pc, -, hend⟩
  · cases ho
  · simp [PublishEnd] at hend
  · have hkey : c = c' ∧ a = a' := by
      rcases hend with ⟨-, -, -, ho⟩ | ⟨_, _, -, -, -, ho⟩ | ⟨_, -, ho, -⟩ | ⟨ho, -⟩ <;> cases ho <;>
        exact ⟨rfl, rfl⟩
    obtain ⟨rfl, rfl⟩ := hkey
    exact ⟨pc, rfl, hend⟩
  · simp [MaintainEnd] at hend
  · simp [ReconcileEnd] at hend
  · simp [ReferenceEnd] at hend
  · simp [RegisterEnd] at hend
  · simp [PatchEnd] at hend
  · simp [DeleteEnd] at hend

/-- A lookup that hits opened the body in its last step, for the record it read before. -/
theorem step_to_hit {c : ChannelId} {a : ArtifactId} {m : ArtifactMetadata} {f : Bytes}
    (h : Task.step E i e s t = some (s', .done (.located c a (some (m, f))))) :
    t = .locate c a (.open m) ∧ s.body c a = some f := by
  obtain ⟨pc, rfl, hend⟩ := step_to_located h
  rcases hend with ⟨-, -, -, ho⟩ | ⟨m', f', rfl, -, hf, ho⟩ | ⟨_, -, ho, -⟩ | ⟨ho, -⟩
  · cases ho
  · cases ho
    exact ⟨rfl, hf⟩
  · cases ho
  · cases ho

/-- A publication is acknowledged by the step that writes its batch. -/
theorem step_to_published {r : PublishRequest} {created : Bool}
    (h : Task.step E i e s t = some (s', .done (.published r created))) :
    ∃ f found now, t = .publish r (.commitWrite f found) ∧
      s' = r.release E i f (s.commit r.durability (r.batch E f found now)) := by
  rcases step_from h with ⟨-, -, ho⟩ | ⟨r', pc, rfl, hend⟩ | ⟨c', a', pc, -, hend⟩ |
    ⟨c', candidate, decision, pc, -, hend⟩ | ⟨c', a', pc, -, hend⟩ | ⟨c', name, op, pc, -, hend⟩ |
    ⟨record, pc, -, hend⟩ | ⟨c', credential, expirySeconds, pc, -, hend⟩ |
    ⟨c', credential, pc, -, hend⟩
  · cases ho
  · rcases hend with ⟨f, found, now, rfl, ho, hs⟩ | ⟨ho, -⟩
    · cases ho
      exact ⟨f, found, now, rfl, hs⟩
    · cases ho
  · simp [LocateEnd] at hend
  · simp [MaintainEnd] at hend
  · simp [ReconcileEnd] at hend
  · simp [ReferenceEnd] at hend
  · simp [RegisterEnd] at hend
  · simp [PatchEnd] at hend
  · simp [DeleteEnd] at hend

/-- A deletion returns once it has forgotten the gate. -/
theorem step_to_deleted {c : ChannelId}
    (h : Task.step E i e s t = some (s', .done (.deleted c))) :
    ∃ credential g, t = .delete c credential (.forget g) ∧ s' = (s.forget c).unlockWrite g := by
  rcases step_from h with ⟨-, -, ho⟩ | ⟨r', pc, -, hend⟩ | ⟨c', a', pc, -, hend⟩ |
    ⟨c', candidate, decision, pc, -, hend⟩ | ⟨c', a', pc, -, hend⟩ | ⟨c', name, op, pc, -, hend⟩ |
    ⟨record, pc, -, hend⟩ | ⟨c', credential, expirySeconds, pc, -, hend⟩ |
    ⟨c', credential, pc, rfl, hend⟩
  · cases ho
  · simp [PublishEnd] at hend
  · simp [LocateEnd] at hend
  · simp [MaintainEnd] at hend
  · simp [ReconcileEnd] at hend
  · simp [ReferenceEnd] at hend
  · simp [RegisterEnd] at hend
  · simp [PatchEnd] at hend
  · rcases hend with ⟨ho, g, rfl, hs⟩ | ⟨ho | ho, -⟩ | ⟨ho, -⟩ | ⟨ho, -⟩
    · cases ho
      exact ⟨credential, g, rfl, hs⟩
    · cases ho
    · cases ho
    · cases ho
    · cases ho

end Flywheel
