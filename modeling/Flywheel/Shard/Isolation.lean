import Flywheel.Shard.Moves
import Flywheel.Shard.Sample
import Flywheel.Storage.Isolation

/-!
# Channels do not see each other

An operation in a channel (`Op.Within`) touches nothing of another channel, and what it does
depends on nothing but its own channel's data.

- `step_other`: a step in `c` leaves the rows, the registry record and the files of every
  other channel alone. It is read off `step_move`.
- `step_matched`: the same step from two states that are `Alike` for `c` is taken in both or
  has to wait in both, goes on with the same task, and keeps the states alike.
- `runTask_other`, `runTask_matched`: the same over whole runs, by induction on the events.

`Alike c` asks for the same data of `c` and for the same locks. Locks are no data: they only
say whether a step may be taken now.
-/

set_option autoImplicit false

namespace Flywheel

open Lib

variable {ι : Type} [DecidableEq ι] {E : Env ι} {i : ι} {c d : ChannelId}

/-! ## Operations in a channel -/

/-- The operations on the data of channel `c`: publication, lookup with its self-heal,
references, maintenance, startup recovery, and the deletion of the data of a marked channel. -/
def Op.Within (c : ChannelId) : Op → Prop
  | .publish r => r.channel = c
  | .locate c' _ | .maintain c' _ _ | .reconcile c' _ | .reference c' _ _ | .resume c' => c' = c
  | .register _ | .patch _ _ _ | .delete _ _ => False

/-- The steps of `delete` after the channel was marked. -/
def DeletePc.marked : DeletePc → Bool
  | .authorize | .gate | .lock _ | .recheck _ | .store _ _ => false
  | _ => true

/-- The tasks such an operation goes through. -/
def Task.Within (c : ChannelId) : Task → Prop
  | .publish r _ => r.channel = c
  | .locate c' _ _ | .maintain c' _ _ _ | .reconcile c' _ _ | .reference c' _ _ _ => c' = c
  | .delete c' _ pc => c' = c ∧ pc.marked = true
  | .done _ => True
  | .idle | .register _ _ | .patch _ _ _ _ => False

/-! ## What a step leaves alone -/

section Frame

variable {e : Event} {s s' : Shared ι} {t t' : Task}

omit [DecidableEq ι] in
theorem StoreMove.sameChannel (h : StoreMove E s t s') (ht : t.Within c) (hne : c ≠ d) :
    SameChannel d s'.store.current s.store.current := by
  cases h with
  | keep h => rw [h]; exact .refl d _
  | publication now htask h =>
    subst htask
    rw [h, Shared.commit_current]
    obtain rfl := ht
    exact .commitBatch_other _ hne ..
  | heal htask h =>
    subst htask
    rw [h, Shared.commit_current]
    obtain rfl := ht
    exact .removeBatch_other _ hne ..
  | requeue htask h =>
    subst htask
    rw [h, Shared.commit_current]
    obtain rfl := ht
    exact .requeueBatch_other _ hne ..
  | evict htask h =>
    subst htask
    rw [h, Shared.commit_current]
    obtain rfl := ht
    exact .evictBatch_other _ hne ..
  | @reference c' name op g now htask h =>
    subst htask
    obtain rfl := ht
    rw [h]
    cases op with
    | bind artifact etag lastModified durability =>
      rw [ReferenceOp.commit.eq_def, Shared.commit_current]
      exact .bindReference_other _ hne ..
    | delete =>
      rw [ReferenceOp.commit.eq_def, Shared.commit_current]
      exact .deleteReference_other _ hne ..
  | register htask _ => subst htask; exact ht.elim
  | patch htask _ => subst htask; exact ht.elim
  | delete htask _ => subst htask; exact absurd ht.2 Bool.false_ne_true
  | deleteData htask h =>
    subst htask
    rw [h, Shared.commit_current]
    obtain rfl := ht.1
    exact .deleteChannelData_other _ hne
  | finish htask h =>
    subst htask
    rw [h, Shared.commit_current]
    obtain rfl := ht.1
    exact .finishChannelDeletion_other _ hne

omit [DecidableEq ι] in
/-- An fsync the durability may skip leaves alone what the fsync does. -/
theorem Shared.syncDisk_agree {durability : Durability} {f : FsDisk → FsDisk} {p : Path}
    (h : Disk.AgreeBelow p (f s.disk) s.disk) :
    Disk.AgreeBelow p (s.syncDisk durability f).disk s.disk := by
  cases durability with
  | durable => exact h
  | bestEffort => exact .refl _ _

theorem channelDir_prefix_of_removable {p : Path} {x : FsDisk} (h : removable x c p = true) :
    channelDir c <+: p := by
  simp only [removable, channelEntries, Bool.and_eq_true, List.contains_iff_mem,
    List.mem_filter] at h
  exact List.isPrefixOf_iff_prefix.mp h.1.2

omit [DecidableEq ι] in
theorem DiskMove.sameFiles (h : DiskMove E i s t s' t') (ht : t.Within c) (hne : c ≠ d) :
    SameFiles d s'.disk s.disk := by
  -- whatever is below the directory of `c` is not below that of `d`
  have hpart : ∀ name, ¬ channelDir d <+: tmpPath c name := fun _ =>
    not_isPrefix_channelDir hne (channelDir_prefix_tmpPath.mpr rfl)
  have hpath : ∀ a, ¬ channelDir d <+: path c a := fun _ =>
    not_isPrefix_channelDir hne (channelDir_prefix_path.mpr rfl)
  have htmp : ¬ channelDir d <+: tmpDir c :=
    not_isPrefix_channelDir hne (channelDir_prefix_tmpDir.mpr rfl)
  have hshard : ∀ a, ¬ channelDir d <+: Flywheel.shardDir c a := fun _ =>
    not_isPrefix_channelDir hne (channelDir_prefix_shardDir.mpr rfl)
  cases h with
  | keep h => rw [h]; exact .refl _ _
  | stageDir htask h => subst htask; obtain rfl := ht; rw [h]; exact .mkdirAll_left htmp
  | stageOpen htask h => subst htask; obtain rfl := ht; exact .createNew_left (hpart _) h
  | stageWrite htask h => subst htask; obtain rfl := ht; rw [h]; exact .write_left (hpart _) _
  | stageSync htask h =>
    subst htask
    obtain rfl := ht
    rw [h]
    exact Shared.syncDisk_agree (.syncFile_left (hpart _))
  | shardDir htask h => subst htask; obtain rfl := ht; rw [h]; exact .mkdirAll_left (hshard _)
  | removePart htask h =>
    rw [h]
    rcases htask with htask | htask | htask <;>
    · subst htask
      obtain rfl := ht
      exact .unlink_left (hpart _)
  | rename htask _ h => subst htask; obtain rfl := ht; exact .rename_left (hpart _) (hpath _) h
  | syncParent htask h =>
    subst htask
    obtain rfl := ht
    rw [h]
    exact Shared.syncDisk_agree (.syncDir_left (hshard _) (by simp [Flywheel.shardDir, channelDir]))
  | evict htask _ h => subst htask; obtain rfl := ht; rw [h]; exact .unlink_left (hpath _)
  | reconcile htask h => subst htask; obtain rfl := ht; rw [h]; exact .unlink_left (hpath _)
  | removeDir p htask hp h =>
    subst htask
    obtain rfl := ht.1
    rw [h]
    exact .unlink_left (not_isPrefix_channelDir hne (channelDir_prefix_of_removable hp))

/-- A step in one channel leaves the data of the others alone. -/
theorem step_other (h : Task.step E i e s t = some (s', t')) (ht : t.Within c) (hne : c ≠ d) :
    SameChannel d s'.store.current s.store.current ∧ SameFiles d s'.disk s.disk :=
  ⟨(step_move h).store.sameChannel ht hne, (step_move h).disk.sameFiles ht hne⟩

end Frame

/-! ## States alike for a channel -/

/-- Two states with the same data of channel `c` and the same locks. -/
structure Alike (c : ChannelId) (s s' : Shared ι) : Prop where
  rows : SameChannel c s.store.current s'.store.current
  files : SameFiles c s.disk s'.disk
  stripes : s.stripes = s'.stripes
  gate : s.gates c = s'.gates c
  nextGate : s.nextGate = s'.nextGate
  locks : s.locks = s'.locks

namespace Alike

variable {s s' : Shared ι}

omit [DecidableEq ι]

theorem refl (c : ChannelId) (s : Shared ι) : Alike c s s :=
  ⟨.refl c _, .refl _ _, rfl, rfl, rfl, rfl⟩

/-! ### Reads -/

theorem record (h : Alike c s s') (a : ArtifactId) : s.record c a = s'.record c a :=
  h.rows.artifact a

theorem channel (h : Alike c s s') : s.channel c = s'.channel c := h.rows.channel

theorem kindAt (h : Alike c s s') {p : Path} (hp : channelDir c <+: p) :
    s.kindAt p = s'.kindAt p :=
  h.files.kindAt hp

theorem body (h : Alike c s s') (a : ArtifactId) : s.body c a = s'.body c a :=
  h.files.content (channelDir_prefix_path.mpr rfl)

theorem channelEntries (h : Alike c s s') :
    channelEntries s.disk c = channelEntries s'.disk c :=
  h.files.entries

theorem removable (h : Alike c s s') (p : Path) :
    removable s.disk c p = removable s'.disk c p := by
  rw [Flywheel.removable, Flywheel.removable, h.channelEntries]

/-! ### Updates -/

theorem setDisk (h : Alike c s s') {x y : FsDisk} (hxy : SameFiles c x y) :
    Alike c { s with disk := x } { s' with disk := y } :=
  { h with files := hxy }

theorem onDisk (h : Alike c s s') {f : FsDisk → FsDisk}
    (hf : SameFiles c (f s.disk) (f s'.disk)) : Alike c (s.onDisk f) (s'.onDisk f) :=
  h.setDisk hf

theorem syncDisk (h : Alike c s s') {durability : Durability} {f : FsDisk → FsDisk}
    (hf : SameFiles c (f s.disk) (f s'.disk)) :
    Alike c (s.syncDisk durability f) (s'.syncDisk durability f) := by
  cases durability with
  | durable => exact h.setDisk hf
  | bestEffort => exact h

theorem commit (h : Alike c s s') {durability : Durability}
    {batch : RocksMetadata → RocksMetadata}
    (hb : SameChannel c (batch s.store.current) (batch s'.store.current)) :
    Alike c (s.commit durability batch) (s'.commit durability batch) :=
  { h with rows := by rw [Shared.commit_current, Shared.commit_current]; exact hb }

/-- The channel's gate is the same lock in both. -/
theorem gate_eq (h : Alike c s s') : (s.gate c).2 = (s'.gate c).2 := by
  simp only [Shared.gate, h.gate, h.nextGate]

theorem lookup (h : Alike c s s') : Alike c (s.gate c).1 (s'.gate c).1 := by
  refine { h with gate := ?_, nextGate := ?_ }
  · simp [Shared.gate, h.gate, h.nextGate]
  · simp [Shared.gate, h.gate, h.nextGate]

theorem forget (h : Alike c s s') : Alike c (s.forget c) (s'.forget c) :=
  { h with gate := by simp [Shared.forget] }

theorem lockStripe (h : Alike c s s') (k : Nat) (i : ι) :
    Option.Rel (Alike c) (s.lockStripe k i) (s'.lockStripe k i) := by
  rw [Shared.lockStripe, Shared.lockStripe, h.stripes]
  cases s'.stripes.lock k i with
  | none => exact .none
  | some m => exact .some { h with stripes := rfl }

theorem unlockStripe (h : Alike c s s') (k : Nat) :
    Alike c (s.unlockStripe k) (s'.unlockStripe k) :=
  { h with stripes := by simp only [Shared.unlockStripe, h.stripes] }

theorem unlockWrite (h : Alike c s s') (g : Nat) :
    Alike c (s.unlockWrite g) (s'.unlockWrite g) :=
  { h with locks := by simp only [Shared.unlockWrite, h.locks] }

variable [DecidableEq ι]

theorem lockRead (h : Alike c s s') (g : Nat) (i : ι) :
    Option.Rel (Alike c) (s.lockRead g i) (s'.lockRead g i) := by
  rw [Shared.lockRead, Shared.lockRead, h.locks]
  cases (s'.locks g).read i with
  | none => exact .none
  | some l => exact .some { h with locks := rfl }

theorem lockWrite (h : Alike c s s') (g : Nat) (i : ι) :
    Option.Rel (Alike c) (s.lockWrite g i) (s'.lockWrite g i) := by
  rw [Shared.lockWrite, Shared.lockWrite, h.locks]
  cases (s'.locks g).write i with
  | none => exact .none
  | some l => exact .some { h with locks := rfl }

theorem unlockRead (h : Alike c s s') (g : Nat) (i : ι) :
    Alike c (s.unlockRead g i) (s'.unlockRead g i) :=
  { h with locks := by simp only [Shared.unlockRead, h.locks] }

theorem release (h : Alike c s s') (r : PublishRequest) (f : Fence) :
    Alike c (r.release E i f s) (r.release E i f s') :=
  (h.unlockStripe _).unlockRead f.gate i

end Alike

/-! ## The same step in both -/

/-- Both steps have to wait, or both are taken and go on alike. -/
abbrev Matched (c : ChannelId) : Option (Shared ι × Task) → Option (Shared ι × Task) → Prop :=
  Option.Rel fun x y => Alike c x.1 y.1 ∧ x.2 = y.2 ∧ x.2.Within c

section Match

variable {s s' : Shared ι} {t : Task}

omit [DecidableEq ι] in
theorem Matched.taken (h : Alike c s s') (ht : t.Within c) :
    Matched c (some (s, t)) (some (s', t)) :=
  .some ⟨h, rfl, ht⟩

omit [DecidableEq ι] in
theorem Matched.locked {x y : Option (Shared ι)} (h : Option.Rel (Alike c) x y)
    (ht : t.Within c) : Matched c (x.map fun s => (s, t)) (y.map fun s => (s, t)) := by
  cases h with
  | none => exact .none
  | some h => exact .taken h ht

omit [DecidableEq ι] in
/-- A call on the disk that may fail. -/
theorem Matched.disk (h : Alike c s s') {u : Task} (ht : t.Within c) (hu : u.Within c)
    {x y : Option FsDisk} : Option.Rel (SameFiles c) x y →
    Matched c
      (match x with
        | some d => some ({ s with disk := d }, t)
        | none => some (s, u))
      (match y with
        | some d => some ({ s' with disk := d }, t)
        | none => some (s', u)) := by
  intro hxy
  cases hxy with
  | none => exact .taken h hu
  | some hd => exact .taken (h.setDisk hd) ht

omit [DecidableEq ι] in
theorem Matched.ite {b : Prop} [Decidable b] {x x' y y' : Option (Shared ι × Task)}
    (hx : Matched c x x') (hy : Matched c y y') :
    Matched c (if b then x else y) (if b then x' else y') := by
  split
  · exact hx
  · exact hy

theorem publishStep_matched {r : PublishRequest} (h : Alike r.channel s s') (pc : PublishPc)
    (e : Event) :
    Matched r.channel (publishStep E i r pc e s) (publishStep E i r pc e s') := by
  -- All that a publication touches lies below its channel: both shards take the same step.
  have hpart : channelDir r.channel <+: r.part E i := channelDir_prefix_tmpPath.mpr rfl
  have hfinal : channelDir r.channel <+: r.final E := channelDir_prefix_path.mpr rfl
  cases pc with
  | stageDir =>
    cases e with
    | run now => exact .taken (h.onDisk (h.files.mkdirAll _)) rfl
    | fail => exact .taken h trivial
    | _ => exact .none
  | stageOpen =>
    cases e with
    | run now =>
      exact .disk (t := .publish r .stageWrite) (u := .publish r .discard) h rfl rfl
        (h.files.createNew hpart (channelDir_prefix_tmpDir.mpr rfl))
    | fail => exact .taken h rfl
    | _ => exact .none
  | stageWrite =>
    cases e with
    | run now => exact .taken (h.onDisk (h.files.write hpart _)) rfl
    | fail => exact .taken h rfl
    | _ => exact .none
  | stageSync =>
    cases e with
    | run now => exact .taken (h.syncDisk (h.files.syncFile hpart)) rfl
    | fail => exact .taken h rfl
    | _ => exact .none
  | fenceGate stagedAt =>
    cases e with
    | run now =>
      simp only [publishStep, h.gate_eq]
      exact .taken h.lookup rfl
    | _ => exact .none
  | fenceLock stagedAt g =>
    cases e with
    | run now => exact .locked (h.lockRead g i) rfl
    | _ => exact .none
  | fenceCheck stagedAt g =>
    cases e with
    | run now =>
      -- The fence reads the record of the channel, which is the same in both.
      simp only [publishStep, h.channel]
      split
      · exact .ite (.taken h rfl) (.taken (h.unlockRead g i) rfl)
      · exact .taken (h.unlockRead g i) rfl
    | fail => exact .taken (h.unlockRead g i) rfl
    | _ => exact .none
  | stripe f =>
    cases e with
    | run now => exact .locked (h.lockStripe _ i) rfl
    | _ => exact .none
  | publishDir f =>
    cases e with
    | run now => exact .ite (.taken h rfl) (.taken (h.onDisk (h.files.mkdirAll _)) rfl)
    | fail => exact .taken h rfl
    | _ => exact .none
  | tryExists f =>
    cases e with
    | run now =>
      simp only [publishStep, h.kindAt hfinal]
      exact .ite (.taken h rfl) (.taken h rfl)
    | fail => exact .taken h rfl
    | _ => exact .none
  | removeStaged f =>
    cases e with
    | run now =>
      simp only [publishStep, h.kindAt hpart]
      exact .ite (.taken (h.onDisk (h.files.unlink _)) rfl) (.taken h rfl)
    | fail => exact .taken h rfl
    | _ => exact .none
  | rename f =>
    cases e with
    | run now =>
      -- The rename needs the target's directory, which is of the channel as well.
      have hdir : channelDir r.channel <+: (r.final E).dropLast := by
        rw [PublishRequest.final, dropLast_path]
        exact channelDir_prefix_shardDir.mpr rfl
      exact .disk (t := .publish r (.syncParent f)) (u := .publish r (.discardLocked f)) h
        rfl rfl (h.files.rename hpart hdir)
    | fail => exact .taken h rfl
    | _ => exact .none
  | syncParent f =>
    cases e with
    | run now => exact .taken (h.syncDisk (h.files.syncDir _)) rfl
    | fail => exact .taken (h.release r f) trivial
    | _ => exact .none
  | commitRead f =>
    cases e with
    | run now =>
      simp only [publishStep, h.record]
      exact .taken h rfl
    | fail => exact .taken (h.release r f) trivial
    | _ => exact .none
  | commitWrite f found =>
    cases e with
    | run now => exact .taken ((h.commit (h.rows.commitBatch ..)).release r f) trivial
    | fail => exact .taken (h.release r f) trivial
    | _ => exact .none
  | discard =>
    cases e with
    | run now => exact .taken (h.onDisk (h.files.unlink _)) trivial
    | fail => exact .taken h trivial
    | _ => exact .none
  | discardLocked f =>
    cases e with
    | run now => exact .taken ((h.onDisk (h.files.unlink _)).release r f) trivial
    | fail => exact .taken (h.release r f) trivial
    | _ => exact .none

omit [DecidableEq ι] in
theorem locateStep_matched (h : Alike c s s') (a : ArtifactId) (pc : LocatePc) (e : Event) :
    Matched c (locateStep E i c a pc e s) (locateStep E i c a pc e s') := by
  cases pc with
  | read =>
    cases e with
    | run now =>
      simp only [locateStep, h.record]
      split
      · exact .taken h rfl
      · exact .taken h trivial
    | fail => exact .taken h trivial
    | _ => exact .none
  | «open» m =>
    cases e with
    | run now =>
      simp only [locateStep, h.body]
      split
      · exact .taken h trivial
      · exact .taken h rfl
    | fail => exact .taken h trivial
    | _ => exact .none
  | stripe =>
    cases e with
    | run now => exact .locked (h.lockStripe _ i) rfl
    | _ => exact .none
  | removeRead =>
    cases e with
    | run now =>
      simp only [locateStep, h.record]
      exact .taken h rfl
    | fail => exact .taken (h.unlockStripe _) trivial
    | _ => exact .none
  | removeWrite found =>
    cases e with
    | run now => exact .taken ((h.commit (h.rows.removeBatch ..)).unlockStripe _) trivial
    | fail => exact .taken (h.unlockStripe _) trivial
    | _ => exact .none

omit [DecidableEq ι] in
theorem maintainStep_matched (h : Alike c s s') (candidate : Candidate) (decision : Decision)
    (pc : MaintainPc) (e : Event) :
    Matched c (maintainStep E i c candidate decision pc e s)
      (maintainStep E i c candidate decision pc e s') := by
  cases pc with
  | stripe =>
    cases e with
    | run now => exact .locked (h.lockStripe _ i) rfl
    | _ => exact .none
  | requeueRead =>
    cases e with
    | run now =>
      simp only [maintainStep, h.record]
      split
      · exact .ite (.taken (h.unlockStripe _) trivial) (.taken h rfl)
      · exact .taken (h.unlockStripe _) trivial
    | fail => exact .taken (h.unlockStripe _) trivial
    | _ => exact .none
  | requeueWrite m =>
    cases e with
    | run now =>
      cases decision with
      | requeue new =>
        exact .taken ((h.commit (h.rows.requeueBatch ..)).unlockStripe _) trivial
      | evict => exact .none
    | fail => exact .taken (h.unlockStripe _) trivial
    | _ => exact .none
  | preRead =>
    cases e with
    | run now =>
      simp only [maintainStep, h.record]
      exact .ite (.taken h rfl) (.taken h rfl)
    | fail => exact .taken (h.unlockStripe _) trivial
    | _ => exact .none
  | unlink =>
    cases e with
    | run now => exact .taken (h.onDisk (h.files.unlink _)) rfl
    | fail => exact .taken (h.unlockStripe _) trivial
    | _ => exact .none
  | evictRead =>
    cases e with
    | run now =>
      simp only [maintainStep, h.record]
      exact .taken h rfl
    | fail => exact .taken (h.unlockStripe _) trivial
    | _ => exact .none
  | evictWrite found =>
    cases e with
    | run now => exact .taken ((h.commit (h.rows.evictBatch ..)).unlockStripe _) trivial
    | fail => exact .taken (h.unlockStripe _) trivial
    | _ => exact .none

omit [DecidableEq ι] in
theorem reconcileStep_matched (h : Alike c s s') (a : ArtifactId) (pc : ReconcilePc) (e : Event) :
    Matched c (reconcileStep E i c a pc e s) (reconcileStep E i c a pc e s') := by
  cases pc with
  | read =>
    cases e with
    | run now =>
      simp only [reconcileStep, h.record]
      exact .ite (.taken h trivial) (.taken h rfl)
    | fail => exact .taken h trivial
    | _ => exact .none
  | stripe =>
    cases e with
    | run now => exact .locked (h.lockStripe _ i) rfl
    | _ => exact .none
  | reread =>
    cases e with
    | run now =>
      simp only [reconcileStep, h.record]
      exact .ite (.taken (h.unlockStripe _) trivial) (.taken h rfl)
    | fail => exact .taken (h.unlockStripe _) trivial
    | _ => exact .none
  | remove =>
    cases e with
    | run now => exact .taken ((h.onDisk (h.files.unlink _)).unlockStripe _) trivial
    | fail => exact .taken (h.unlockStripe _) trivial
    | _ => exact .none

omit [DecidableEq ι] in
theorem ReferenceOp.commit_alike (h : Alike c s s') (op : ReferenceOp) (name : Bytes)
    (now : UInt64) : Alike c (op.commit c name now s) (op.commit c name now s') := by
  cases op with
  | bind artifact etag lastModified durability => exact h.commit (h.rows.bindReference ..)
  | delete => exact h.commit (h.rows.deleteReference ..)

theorem referenceStep_matched (h : Alike c s s') (name : Bytes) (op : ReferenceOp)
    (pc : ReferencePc) (e : Event) :
    Matched c (referenceStep i c name op pc e s) (referenceStep i c name op pc e s') := by
  cases pc with
  | fenceGate =>
    cases e with
    | run now =>
      simp only [referenceStep, h.gate_eq]
      exact .taken h.lookup rfl
    | _ => exact .none
  | fenceLock g =>
    cases e with
    | run now => exact .locked (h.lockRead g i) rfl
    | _ => exact .none
  | fenceCheck g =>
    cases e with
    | run now =>
      simp only [referenceStep, h.channel]
      split
      · exact .ite (.taken h rfl) (.taken (h.unlockRead g i) trivial)
      · exact .taken (h.unlockRead g i) trivial
    | fail => exact .taken (h.unlockRead g i) trivial
    | _ => exact .none
  | write g =>
    cases e with
    | run now => exact .taken ((op.commit_alike h name now).unlockRead g i) trivial
    | fail => exact .taken (h.unlockRead g i) trivial
    | _ => exact .none

theorem deleteStep_matched (h : Alike c s s') (credential : Option Bytes) {pc : DeletePc}
    (hpc : pc.marked = true) (e : Event) :
    Matched c (deleteStep E i c credential pc e s) (deleteStep E i c credential pc e s') := by
  cases pc with
  | authorize | gate | lock g | recheck g | store g record => exact absurd hpc Bool.false_ne_true
  | resumeRead =>
    cases e with
    | run now =>
      simp only [deleteStep, h.channel]
      exact .ite (.taken h ⟨rfl, rfl⟩) (.taken h trivial)
    | fail => exact .taken h trivial
    | _ => exact .none
  | exclusiveGate =>
    cases e with
    | run now =>
      simp only [deleteStep, h.gate_eq]
      exact .taken h.lookup ⟨rfl, rfl⟩
    | _ => exact .none
  | exclusiveLock g =>
    cases e with
    | run now => exact .locked (h.lockWrite g i) ⟨rfl, rfl⟩
    | _ => exact .none
  | deleteData g =>
    cases e with
    | run now => exact .taken (h.commit (h.rows.deleteChannelData c)) ⟨rfl, rfl⟩
    | fail => exact .taken (h.unlockWrite g) trivial
    | _ => exact .none
  | removeDir g =>
    cases e with
    | run now =>
      simp only [deleteStep, h.channelEntries]
      exact .ite (.taken h ⟨rfl, rfl⟩) .none
    | remove p =>
      simp only [deleteStep, h.removable]
      exact .ite (.taken (h.onDisk (h.files.unlink p)) ⟨rfl, rfl⟩) .none
    | fail => exact .taken (h.unlockWrite g) trivial
    | _ => exact .none
  | finish g =>
    cases e with
    | run now => exact .taken (h.commit (h.rows.finishChannelDeletion c)) ⟨rfl, rfl⟩
    | fail => exact .taken (h.unlockWrite g) trivial
    | _ => exact .none
  | forget g =>
    cases e with
    | run now => exact .taken (h.forget.unlockWrite g) trivial
    | _ => exact .none

/-- The same step from two states alike. -/
theorem step_matched (h : Alike c s s') (ht : t.Within c) (e : Event) :
    Matched c (Task.step E i e s t) (Task.step E i e s' t) := by
  cases t with
  | publish r pc => obtain rfl := ht; exact publishStep_matched h pc e
  | locate c' a pc => obtain rfl := ht; exact locateStep_matched h a pc e
  | maintain c' candidate decision pc =>
    obtain rfl := ht
    exact maintainStep_matched h candidate decision pc e
  | reconcile c' a pc => obtain rfl := ht; exact reconcileStep_matched h a pc e
  | reference c' name op pc => obtain rfl := ht; exact referenceStep_matched h name op pc e
  | delete c' credential pc =>
    obtain ⟨rfl, hpc⟩ := ht
    exact deleteStep_matched h credential hpc e
  | done o => exact .none
  | idle | register record pc | patch c' credential expirySeconds pc => exact ht.elim

omit [DecidableEq ι] in
theorem start_matched (h : Alike c s s') {op : Op} (hop : op.Within c) :
    Matched c (startTask s op) (startTask s' op) := by
  cases op with
  | publish r => exact .taken h hop
  | locate c' a => exact .taken h hop
  | maintain c' candidate decision => exact .taken h hop
  | reconcile c' a => exact .taken h hop
  | reference c' name op => exact .taken h hop
  | resume c' => exact .taken h ⟨hop, rfl⟩
  | register record | patch c' credential expirySeconds | delete c' credential => exact hop.elim

end Match

/-! ## Whole runs -/

/-- Thread `i` goes on with a task, resolved by one event a step. -/
def runTask (E : Env ι) (i : ι) (x : Shared ι × Task) : List Event → Option (Shared ι × Task)
  | [] => some x
  | e :: es => (Task.step E i e x.1 x.2).bind fun y => runTask E i y es

/-- Thread `i` takes up an operation and goes on with it. -/
def runOp (E : Env ι) (i : ι) (op : Op) (es : List Event) (s : Shared ι) :
    Option (Shared ι × Task) :=
  (startTask s op).bind fun x => runTask E i x es

theorem runTask_matched {x y : Shared ι × Task} (h : Alike c x.1 y.1) (htask : x.2 = y.2)
    (ht : x.2.Within c) (es : List Event) : Matched c (runTask E i x es) (runTask E i y es) := by
  induction es generalizing x y with
  | nil => exact .some ⟨h, htask, ht⟩
  | cons e es ih =>
    have hstep := step_matched (E := E) (i := i) h ht e
    rw [runTask, runTask, ← htask]
    generalize Task.step E i e x.1 x.2 = x₁ at hstep ⊢
    generalize Task.step E i e y.1 x.2 = y₁ at hstep ⊢
    cases hstep with
    | none => exact .none
    | some hxy => exact ih hxy.1 hxy.2.1 hxy.2.2

theorem runTask_other {x y : Shared ι × Task} {es : List Event}
    (h : runTask E i x es = some y) (ht : x.2.Within c) (hne : c ≠ d) :
    SameChannel d y.1.store.current x.1.store.current ∧ SameFiles d y.1.disk x.1.disk := by
  induction es generalizing x with
  | nil =>
    obtain rfl := Option.some.inj h
    exact ⟨.refl d _, .refl _ _⟩
  | cons e es ih =>
    obtain ⟨z, hz, hrun⟩ := Option.bind_eq_some_iff.mp h
    -- a step from a state to itself: the next task is one of the channel again
    have hwithin : z.2.Within c := by
      have hmatched := step_matched (E := E) (i := i) (Alike.refl c x.1) ht e
      rw [hz] at hmatched
      cases hmatched with
      | some hstep => exact hstep.2.2
    have hfirst := step_other hz ht hne
    have hrest := ih hrun hwithin
    exact ⟨hrest.1.trans hfirst.1, hrest.2.trans hfirst.2⟩

omit [DecidableEq ι] in
theorem startTask_shared {s s' : Shared ι} {op : Op} {t : Task} (hop : op.Within c)
    (h : startTask s op = some (s', t)) : s' = s ∧ t.Within c := by
  have hmatched := start_matched (Alike.refl c s) hop
  rw [h] at hmatched
  have ht : t.Within c := by
    cases hmatched with
    | some hstart => exact hstart.2.2
  refine ⟨?_, ht⟩
  cases op with
  | register record | patch c' credential expirySeconds | delete c' credential => exact hop.elim
  | _ => exact (congrArg Prod.fst (Option.some.inj h)).symm

/-- An operation of one channel, run to any point from any state, leaves every row, registry
record and file of the others alone; from two states with the same data of its channel it gets
equally far, returns the same and leaves the same data; and so do the reads. -/
theorem channels_isolated (E : Env ι) (i : ι) {c d : ChannelId} (hne : c ≠ d) {op : Op}
    (hop : op.Within c) (es : List Event) :
    (∀ s s₁ t, runOp E i op es s = some (s₁, t) →
      SameChannel d s₁.store.current s.store.current ∧ SameFiles d s₁.disk s.disk) ∧
    (∀ s s', Alike c s s' →
      Option.Rel (fun x y => x.2 = y.2 ∧ Alike c x.1 y.1) (runOp E i op es s)
        (runOp E i op es s')) ∧
    ∀ x y : RocksMetadata, SameChannel c x y →
      (∀ limit, x.reclaimCandidates c limit = y.reclaimCandidates c limit) ∧
      (∀ name, x.reference c name = y.reference c name) ∧
      (∀ a, x.artifact c a = y.artifact c a) ∧
      ∀ a eligibleAt, (x.evict c a eligibleAt).2 = (y.evict c a eligibleAt).2 := by
  refine ⟨fun s s₁ t hrun => ?_, fun s s' h => ?_, fun x y h => ⟨h.reclaimCandidates,
    h.reference, h.artifact, fun a eligibleAt => ?_⟩⟩
  · obtain ⟨⟨s₀, t₀⟩, hstart, hrest⟩ := Option.bind_eq_some_iff.mp hrun
    obtain ⟨rfl, ht₀⟩ := startTask_shared hop hstart
    exact runTask_other hrest ht₀ hne
  · have hstart := start_matched h hop
    rw [runOp, runOp]
    generalize startTask s op = x₀ at hstart ⊢
    generalize startTask s' op = y₀ at hstart ⊢
    cases hstart with
    | none => exact .none
    | @some x y hxy =>
      have hrun := runTask_matched (E := E) (i := i) hxy.1 hxy.2.1 hxy.2.2 es
      show Option.Rel _ (runTask E i x es) (runTask E i y es)
      generalize runTask E i x es = x₁ at hrun ⊢
      generalize runTask E i y es = y₁ at hrun ⊢
      cases hrun with
      | none => exact .none
      | some hend => exact .some ⟨hend.2.1, hend.1⟩
  · rw [RocksMetadata.evict, RocksMetadata.evict, h.artifact a]
    cases y.artifact c a with
    | none => rfl
    | some m =>
      simp only [RocksMetadata.evictBatch]
      split <;> rfl

/-! ### Two neighbours in key order -/

/-- A channel marked for deletion, with a record and the directories of its body. -/
def markedShared : Shared (BitVec 128) :=
  { Shared.fresh (BitVec 128) 100 0 with
    store := Journal.synced ((RocksMetadata.empty.storeChannel
      ⟨⟨1⟩, .open, 100, .deleting, 0⟩).commitBatch ⟨1⟩ sampleArtifact false
        ⟨1, none, 0, 100, 1, .identity⟩ none)
    disk := (∅ : FsDisk).mkdirAll (shardDir ⟨1⟩ sampleArtifact) }

/-- The same, with a record of the channel that is next in key order. -/
def markedWithNeighbour : Shared (BitVec 128) :=
  markedShared.commit .durable
    (·.commitBatch ⟨2⟩ sampleArtifact false ⟨1, none, 0, 100, 1, .identity⟩ none)

/-- The events of the deletion: the directories go one at a time, the deepest first. -/
def deletionEvents : List Event :=
  [.run 0, .run 0, .run 0, .run 0] ++
    ((shardDir ⟨1⟩ sampleArtifact).inits.reverse.dropLast.map .remove) ++ [.run 0, .run 0, .run 0]

/-- The neighbour keeps its record, and the deletion would have ended the same without it. -/
theorem neighbour_kept :
    (∃ s₁, runOp sampleEnv 7 (.resume ⟨1⟩) deletionEvents markedWithNeighbour =
        some (s₁, .done (.deleted ⟨1⟩)) ∧
      s₁.record ⟨2⟩ sampleArtifact = some ⟨1, none, 0, 100, 1, .identity⟩) ∧
    ∃ s₁, runOp sampleEnv 7 (.resume ⟨1⟩) deletionEvents markedShared =
      some (s₁, .done (.deleted ⟨1⟩)) := by
  have hop : (Op.resume ⟨1⟩).Within ⟨1⟩ := rfl
  have hisolated := channels_isolated sampleEnv 7 (d := ⟨2⟩) (by decide) hop deletionEvents
  have hrun : (runOp sampleEnv 7 (.resume ⟨1⟩) deletionEvents markedWithNeighbour).any
      (fun x => decide (x.2 = .done (.deleted ⟨1⟩))) = true := by decide
  obtain ⟨⟨s₁, t⟩, hs₁, ht⟩ := (Option.any_eq_true _ _).mp hrun
  obtain rfl : t = .done (.deleted ⟨1⟩) := by simpa using ht
  have halike : Alike ⟨1⟩ markedWithNeighbour markedShared :=
    ⟨by rw [markedWithNeighbour, Shared.commit_current]
        exact .commitBatch_other _ (by decide) ..,
      .refl _ _, rfl, rfl, rfl, rfl⟩
  refine ⟨⟨s₁, hs₁, ?_⟩, ?_⟩
  · exact ((hisolated.1 _ _ _ hs₁).1.artifact sampleArtifact).trans (by decide)
  · have hsame := hisolated.2.1 _ _ halike
    rw [hs₁] at hsame
    generalize runOp sampleEnv 7 (.resume ⟨1⟩) deletionEvents markedShared = y at hsame ⊢
    cases hsame with
    | @some _ y hend => exact ⟨y.1, congrArg some (Prod.ext rfl hend.1.symm)⟩

end Flywheel
