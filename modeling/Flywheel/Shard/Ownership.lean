import Flywheel.Shard.Locking

/-!
# What a task may rely on

While a task holds the stripe of an artifact, nobody else writes the artifact's record or
its published body, unless the channel is deleted; and nobody else touches the file a
publication has staged. `Task.view` is that part of the state, and `view_frame` says that
other threads leave it alone. An assertion about a task that speaks only of its view is
therefore kept by every step of every other thread: `assertion_fire` leaves just the
task's own steps to check.

`Knows` is what each task knows at each program counter because of its stripe.
-/

set_option autoImplicit false

namespace Flywheel

open Lib

variable {ι : Type} [DecidableEq ι] {E : Env ι} {i : ι} {e : Event} {s s' : Shared ι} {t t' : Task}

/-! ## What becomes of a record and of a body -/

def Task.isDelete : Task → Prop
  | .delete .. => True
  | _ => False

instance : DecidablePred Task.isDelete
  | .delete .. => .isTrue trivial
  | .idle | .publish .. | .locate .. | .maintain .. | .reconcile .. | .reference ..
  | .register .. | .patch .. | .done _ => .isFalse id

/-- What becomes of the record of `(c, a)` in a step. -/
inductive RecordChange (E : Env ι) (s : Shared ι) (t : Task) (s' : Shared ι) (c : ChannelId)
    (a : ArtifactId) : Prop
  | keep (h : s'.record c a = s.record c a)
  | created {r : PublishRequest} {f : Fence} (now : UInt64)
    (ht : t = .publish r (.commitWrite f false)) (hc : r.channel = c) (ha : r.artifact E = a)
    (h : s'.record c a = some (r.metadata E f now))
  | requeued {candidate : Candidate} {m : ArtifactMetadata} {new : UInt64}
    (ht : t = .maintain c candidate (.requeue new) (.requeueWrite m))
    (ha : candidate.artifact = a) (h : s'.record c a = some { m with eligibleAt := new })
  | healed {found : Option ArtifactMetadata} (ht : t = .locate c a (.removeWrite found))
    (h : s'.record c a = none)
  | evicted {candidate : Candidate} {decision : Decision} {found : Option ArtifactMetadata}
    (ht : t = .maintain c candidate decision (.evictWrite found)) (ha : candidate.artifact = a)
    (hfound : found.map (·.eligibleAt) = some candidate.eligibleAt) (h : s'.record c a = none)
  | deleted (ht : t.isDelete) (h : s'.record c a = none)

theorem Move.record_change (h : Move E i s t s' t') (c : ChannelId) (a : ArtifactId) :
    RecordChange E s t s' c a := by
  cases h.store with
  | keep hs => exact .keep (by rw [Shared.record, hs, Shared.record])
  | @publication r f found now ht hs =>
    by_cases hkey : found = false ∧ r.channel = c ∧ r.artifact E = a
    · obtain ⟨rfl, rfl, rfl⟩ := hkey
      exact .created now ht rfl rfl (by simp [Shared.record, hs, PublishRequest.batch])
    · exact .keep (by simp [Shared.record, hs, PublishRequest.batch, hkey])
  | @heal c' a' found ht hs =>
    by_cases hkey : c' = c ∧ a' = a
    · obtain ⟨rfl, rfl⟩ := hkey
      exact .healed ht (by simp [Shared.record, hs])
    · exact .keep (by simp [Shared.record, hs, hkey])
  | @requeue c' candidate m new ht hs =>
    by_cases hkey : c' = c ∧ candidate.artifact = a
    · obtain ⟨rfl, rfl⟩ := hkey
      exact .requeued ht rfl (by simp [Shared.record, hs])
    · exact .keep (by simp [Shared.record, hs, hkey])
  | @evict c' candidate decision found ht hs =>
    have hrecord : s'.record c a =
        if found.map (·.eligibleAt) = some candidate.eligibleAt ∧ c' = c ∧ candidate.artifact = a
        then none else s.record c a := by
      rw [Shared.record, hs, Shared.commit_current, RocksMetadata.evictBatch_artifact,
        Shared.record]
    by_cases hkey : found.map (·.eligibleAt) = some candidate.eligibleAt ∧ c' = c ∧
        candidate.artifact = a
    · obtain ⟨hfound, rfl, rfl⟩ := hkey
      exact .evicted ht rfl hfound (by rw [hrecord, if_pos ⟨hfound, rfl, rfl⟩])
    · exact .keep (by rw [hrecord, if_neg hkey])
  | @reference c' name op g now ht hs =>
    exact .keep (by cases op <;> simp [Shared.record, hs, ReferenceOp.commit])
  | register ht hs => exact .keep (by simp [Shared.record, hs])
  | patch ht hs => exact .keep (by simp [Shared.record, hs])
  | delete ht hs => exact .keep (by simp [Shared.record, hs])
  | @deleteData c' credential g ht hs =>
    by_cases hkey : c' = c
    · exact .deleted (ht ▸ trivial) (by simp [Shared.record, hs, hkey])
    · exact .keep (by simp [Shared.record, hs, hkey])
  | finish ht hs => exact .keep (by simp [Shared.record, hs])

/-- What becomes of the published body of `(c, a)` in a step of thread `i`. -/
inductive BodyChange (E : Env ι) (i : ι) (s : Shared ι) (t : Task) (s' : Shared ι) (t' : Task)
    (c : ChannelId) (a : ArtifactId) : Prop
  | keep (h : s'.kindAt (path c a) = s.kindAt (path c a))
  | renamed {r : PublishRequest} {f : Fence} (ht : t = .publish r (.rename f))
    (ht' : t' = .publish r (.syncParent f)) (hc : r.channel = c) (ha : r.artifact E = a)
    (h : s'.kindAt (path c a) = s.kindAt (r.part E i))
  | evicted {candidate : Candidate} {decision : Decision}
    (ht : t = .maintain c candidate decision .unlink)
    (ht' : t' = .maintain c candidate decision .evictRead) (ha : candidate.artifact = a)
    (h : s'.kindAt (path c a) = none)
  | reconciled (ht : t = .reconcile c a .remove) (h : s'.kindAt (path c a) = none)
  | deleted (ht : t.isDelete) (h : s'.kindAt (path c a) = none)

theorem Move.body_change (h : Move E i s t s' t') (c : ChannelId) (a : ArtifactId) :
    BodyChange E i s t s' t' c a := by
  have hpart : ∀ r : PublishRequest, path c a ≠ r.part E i := fun r => path_ne_tmpPath _ _ _ _
  cases h.disk with
  | keep hd => exact .keep (by rw [Shared.kindAt, hd, Shared.kindAt])
  | stageDir ht hd =>
    refine .keep ?_
    rw [Shared.kindAt, hd, Disk.kindAt_mkdirAll (by simp), Shared.kindAt]
  | stageOpen ht hd => exact .keep (Disk.kindAt_createNew hd (hpart _))
  | stageWrite ht hd =>
    exact .keep (by rw [Shared.kindAt, hd, Disk.kindAt_write (hpart _), Shared.kindAt])
  | stageSync ht hd =>
    refine .keep ?_
    rw [Shared.kindAt, hd]
    exact s.syncDisk_kindAt (Disk.kindAt_syncFile (hpart _))
  | shardDir ht hd =>
    refine .keep ?_
    rw [Shared.kindAt, hd, Disk.kindAt_mkdirAll (by simp), Shared.kindAt]
  | removePart ht hd =>
    exact .keep (by rw [Shared.kindAt, hd, Disk.kindAt_unlink (hpart _), Shared.kindAt])
  | @rename r f ht ht' hd =>
    by_cases hpath : path c a = r.final E
    · obtain ⟨rfl, rfl⟩ := path_inj.mp hpath
      exact .renamed ht ht' rfl rfl (Disk.kindAt_rename_self hd)
    · exact .keep (Disk.kindAt_rename hd (hpart _) hpath)
  | syncParent ht hd =>
    refine .keep ?_
    rw [Shared.kindAt, hd]
    exact s.syncDisk_kindAt (Disk.kindAt_syncDir ..)
  | @evict c' candidate decision ht ht' hd =>
    by_cases hpath : path c a = path c' candidate.artifact
    · obtain ⟨rfl, rfl⟩ := path_inj.mp hpath
      exact .evicted ht ht' rfl (by rw [Shared.kindAt, hd, Disk.kindAt_unlink_self])
    · exact .keep (by rw [Shared.kindAt, hd, Disk.kindAt_unlink hpath, Shared.kindAt])
  | @reconcile c' a' ht hd =>
    by_cases hpath : path c a = path c' a'
    · obtain ⟨rfl, rfl⟩ := path_inj.mp hpath
      exact .reconciled ht (by rw [Shared.kindAt, hd, Disk.kindAt_unlink_self])
    · exact .keep (by rw [Shared.kindAt, hd, Disk.kindAt_unlink hpath, Shared.kindAt])
  | removeDir p ht hp hd =>
    by_cases hpath : path c a = p
    · exact .deleted (ht ▸ trivial) (by rw [Shared.kindAt, hd, ← hpath, Disk.kindAt_unlink_self])
    · exact .keep (by rw [Shared.kindAt, hd, Disk.kindAt_unlink hpath, Shared.kindAt])

/-- Whether the next step may rename or unlink a published body. -/
def Task.movesBody : Task → Bool
  | .publish _ (.rename _) | .maintain _ _ _ .unlink | .reconcile _ _ .remove | .delete .. => true
  | _ => false

omit [DecidableEq ι] in
theorem BodyChange.keep_of {c : ChannelId} {a : ArtifactId} (h : BodyChange E i s t s' t' c a)
    (ht : t.movesBody = false) : s'.kindAt (path c a) = s.kindAt (path c a) := by
  cases h with
  | keep h => exact h
  | renamed htask | evicted htask | reconciled htask =>
    subst htask
    cases ht
  | deleted htask =>
    cases t with
    | delete => cases ht
    | _ => exact htask.elim

/-- A record changes only under the stripe of its artifact, or in a deletion. -/
theorem Move.record_frame (h : Move E i s t s' t') {c : ChannelId} {a : ArtifactId}
    (hstripe : t.stripe E ≠ some (E.stripe c a)) (hdelete : ¬ t.isDelete) :
    s'.record c a = s.record c a := by
  cases h.record_change c a with
  | keep h => exact h
  | created now ht hc ha | requeued ht ha | healed ht | evicted ht ha =>
    subst_vars
    exact absurd rfl hstripe
  | deleted ht => exact absurd ht hdelete

/-- A published body changes only under the stripe of its artifact, or in a deletion. -/
theorem Move.body_frame (h : Move E i s t s' t') {c : ChannelId} {a : ArtifactId}
    (hstripe : t.stripe E ≠ some (E.stripe c a)) (hdelete : ¬ t.isDelete) :
    s'.kindAt (path c a) = s.kindAt (path c a) := by
  cases h.body_change c a with
  | keep h => exact h
  | renamed ht ht' hc ha | evicted ht ht' ha | reconciled ht =>
    subst_vars
    exact absurd rfl hstripe
  | deleted ht => exact absurd ht hdelete

/-- A staged file is touched by its own publication only, or in a deletion. -/
theorem Move.part_frame (h : Move E i s t s' t') {j : ι} (hne : j ≠ i) (c : ChannelId)
    (hdelete : ¬ t.isDelete) :
    s'.kindAt (tmpPath c (E.partName j)) = s.kindAt (tmpPath c (E.partName j)) := by
  have hpart : ∀ r : PublishRequest, tmpPath c (E.partName j) ≠ r.part E i := by
    intro r hr
    exact hne (E.partName_inj (tmpPath_inj.mp hr).2)
  unfold Shared.kindAt
  cases h.disk with
  | keep hd => rw [hd]
  | stageDir ht hd => rw [hd, Disk.kindAt_mkdirAll (by simp)]
  | stageOpen ht hd => exact Disk.kindAt_createNew hd (hpart _)
  | stageWrite ht hd => rw [hd, Disk.kindAt_write (hpart _)]
  | stageSync ht hd =>
    rw [hd]
    exact s.syncDisk_kindAt (Disk.kindAt_syncFile (hpart _))
  | shardDir ht hd => rw [hd, Disk.kindAt_mkdirAll (by simp)]
  | removePart ht hd => rw [hd, Disk.kindAt_unlink (hpart _)]
  | rename ht ht' hd => exact Disk.kindAt_rename hd (hpart _) (tmpPath_ne_path _ _ _ _)
  | syncParent ht hd =>
    rw [hd]
    exact s.syncDisk_kindAt (Disk.kindAt_syncDir ..)
  | evict ht ht' hd => rw [hd, Disk.kindAt_unlink (tmpPath_ne_path _ _ _ _)]
  | reconcile ht hd => rw [hd, Disk.kindAt_unlink (tmpPath_ne_path _ _ _ _)]
  | removeDir p ht => exact absurd (ht ▸ trivial) hdelete

/-! ## Views -/

/-- The part of the state that only thread `i` and deletions write while its task is `t`. -/
structure View where
  record : Option ArtifactMetadata
  body : Option (Kind UInt8)
  part : Option (Kind UInt8)

def Task.view (E : Env ι) (s : Shared ι) (i : ι) (t : Task) : View where
  record := (t.owns E).bind fun k => s.record k.1 k.2
  body := (t.owns E).bind fun k => s.kindAt (path k.1 k.2)
  part :=
    match t with
    | .publish r _ => s.kindAt (r.part E i)
    | _ => none

/-- Another thread's step leaves a task's view alone. -/
theorem view_frame {p p' : Shard ι} (hp : Locked E p) (hfire : p.fire E i e = some p')
    (hdelete : ¬ (p.task i).isDelete) {j : ι} (hne : j ≠ i) :
    (p.task j).view E p'.shared j = (p.task j).view E p.shared j := by
  have hmove := step_move (Shard.fire_eq_some hfire).1
  have hfree : ∀ {k}, (p.task j).owns E = some k →
      (p.task i).stripe E ≠ some (E.stripe k.1 k.2) := by
    intro k hk hi
    exact hne (hp.eq_of_stripe (by rw [Task.stripe, hk]; rfl) hi)
  unfold Task.view
  congr 1
  · cases hown : (p.task j).owns E with
    | none => rfl
    | some k => exact hmove.record_frame (hfree hown) hdelete
  · cases hown : (p.task j).owns E with
    | none => rfl
    | some k => exact hmove.body_frame (hfree hown) hdelete
  · cases p.task j with
    | publish r pc => exact hmove.part_frame hne r.channel hdelete
    | _ => rfl

/-- Assertions about views: only the stepping thread has to establish its own. -/
theorem assertion_fire {J : View → Task → Prop} {p p' : Shard ι} (hp : Locked E p)
    (hfire : p.fire E i e = some p') (hdelete : ¬ (p.task i).isDelete)
    (hJ : ∀ j, J ((p.task j).view E p.shared j) (p.task j))
    (hlocal : J ((p'.task i).view E p'.shared i) (p'.task i)) :
    ∀ j, J ((p'.task j).view E p'.shared j) (p'.task j) := by
  refine Pool.fire_inv (J := fun s j t => J (t.view E s j) t) hJ hfire hlocal ?_
  intro j hne hj
  rw [view_frame hp hfire hdelete hne]
  exact hj

/-! ## What each task knows -/

/-- Whether an upload is fsynced before it is published. -/
def PublishRequest.synced (r : PublishRequest) : Bool :=
  match r.durability with
  | .durable => true
  | .bestEffort => false

/-- The upload is staged completely. -/
def View.Staged (E : Env ι) (v : View) (r : PublishRequest) : Prop :=
  v.part = some (.file (r.stored E) r.synced)

/-- The upload has the digest it is published under. -/
def PublishRequest.Checked (E : Env ι) (r : PublishRequest) : Prop :=
  E.sha256 r.body = (r.artifact E).digest

/-- What a task knows of its view at each program counter. -/
def Knows (E : Env ι) (v : View) : Task → Prop
  | .publish r pc =>
    match pc with
    | .stageDir | .stageOpen | .discard | .discardLocked _ => True
    | .stageWrite => v.part = some (.file [] false)
    | .stageSync => v.part = some (.file (r.stored E) false)
    | .fenceGate _ | .fenceLock _ _ | .fenceCheck _ _ | .stripe _ | .publishDir _ => v.Staged E r
    | .tryExists _ => v.Staged E r ∧ r.Checked E
    | .removeStaged _ => r.Checked E ∧ v.body.isSome
    | .rename _ => v.Staged E r ∧ r.Checked E ∧ v.body = none
    | .syncParent _ => r.Checked E ∧ v.body = some (.file (r.stored E) r.synced)
    | .commitRead _ => r.Checked E ∧ v.body.isSome
    | .commitWrite _ found => r.Checked E ∧ v.body.isSome ∧ found = v.record.isSome
  | .locate _ _ pc =>
    match pc with
    | .removeWrite found => found = v.record
    | _ => True
  | .maintain _ candidate _ pc =>
    match pc with
    | .requeueWrite m => v.record = some m
    | .unlink => v.record.map (·.eligibleAt) = some candidate.eligibleAt
    -- an eviction removes the record only of a body it has unlinked
    | .evictRead => v.record.map (·.eligibleAt) = some candidate.eligibleAt → v.body = none
    | .evictWrite found =>
      found = v.record ∧
        (v.record.map (·.eligibleAt) = some candidate.eligibleAt → v.body = none)
    | _ => True
  | .reconcile _ _ pc =>
    match pc with
    | .remove => v.record = none
    | _ => True
  | _ => True

theorem knows_publish {r : PublishRequest} {pc pc' : PublishPc}
    (h : PublishFrom E i r s pc s' pc')
    (hk : Knows E ((Task.publish r pc).view E s i) (.publish r pc)) :
    Knows E ((Task.publish r pc').view E s' i) (.publish r pc') := by
  cases pc' with
  | stageDir | stageOpen | discard | discardLocked => trivial
  | stageWrite =>
    obtain ⟨rfl, d, hd, rfl⟩ := h
    exact Disk.kindAt_createNew_self hd
  | stageSync =>
    obtain ⟨rfl, rfl⟩ := h
    exact Disk.kindAt_write_self hk _
  | fenceGate stagedAt =>
    obtain ⟨rfl, rfl⟩ := h
    show (s.syncDisk r.durability _).disk.kindAt (r.part E i) = some (.file (r.stored E) r.synced)
    unfold PublishRequest.synced Shared.syncDisk
    cases r.durability with
    | durable => exact Disk.kindAt_syncFile_self hk
    | bestEffort => exact hk
  | fenceLock stagedAt g =>
    obtain ⟨rfl, rfl, -⟩ := h
    exact hk
  | fenceCheck stagedAt g =>
    obtain ⟨rfl, hlock⟩ := h
    obtain ⟨l, -, rfl⟩ := Shared.lockRead_eq_some hlock
    exact hk
  | stripe f =>
    obtain ⟨rfl, rfl, -⟩ := h
    exact hk
  | publishDir f =>
    obtain ⟨rfl, hlock⟩ := h
    obtain ⟨m, -, rfl⟩ := Shared.lockStripe_eq_some hlock
    exact hk
  | tryExists f =>
    obtain ⟨rfl, hchecked, rfl⟩ := h
    refine ⟨?_, hchecked⟩
    -- The staged file is not on the way to the directory.
    have hpart : ¬ r.part E i <+: shardDir r.channel (r.artifact E) := by
      simp [PublishRequest.part]
    exact (Disk.kindAt_mkdirAll hpart).trans hk
  | removeStaged f =>
    obtain ⟨rfl, rfl, hsome⟩ := h
    exact ⟨hk.2, hsome⟩
  | rename f =>
    obtain ⟨rfl, rfl, hnone⟩ := h
    exact ⟨hk.1, hk.2, hnone⟩
  | syncParent f =>
    obtain ⟨rfl, d, hd, rfl⟩ := h
    exact ⟨hk.2.1, (Disk.kindAt_rename_self hd).trans hk.1⟩
  | commitRead f =>
    -- The body was there before, or it has just been renamed to its place.
    rcases h with ⟨rfl, rfl⟩ | ⟨rfl, rfl⟩
    · refine ⟨hk.1, ?_⟩
      have hbody : (s.disk.unlink (r.part E i)).kindAt (r.final E) = s.disk.kindAt (r.final E) :=
        Disk.kindAt_unlink (path_ne_tmpPath _ _ _ _)
      show ((s.disk.unlink (r.part E i)).kindAt (r.final E)).isSome = true
      rw [hbody]
      exact hk.2
    · refine ⟨hk.1, ?_⟩
      have hbody : (s.syncDisk r.durability
          (·.syncDir (shardDir r.channel (r.artifact E)))).disk.kindAt (r.final E) =
            s.disk.kindAt (r.final E) := s.syncDisk_kindAt (Disk.kindAt_syncDir ..)
      have hsome : s.disk.kindAt (r.final E) = some (.file (r.stored E) r.synced) := hk.2
      show ((s.syncDisk r.durability _).disk.kindAt (r.final E)).isSome = true
      rw [hbody, hsome]
      rfl
  | commitWrite f found =>
    obtain ⟨rfl, rfl, hfound⟩ := h
    exact ⟨hk.1, hk.2, hfound⟩

omit [DecidableEq ι] in
theorem knows_maintain {c : ChannelId} {candidate : Candidate} {decision : Decision}
    {pc pc' : MaintainPc} (h : MaintainFrom E i c candidate decision s pc s' pc')
    (hk : Knows E ((Task.maintain c candidate decision pc).view E s i)
      (.maintain c candidate decision pc)) :
    Knows E ((Task.maintain c candidate decision pc').view E s' i)
      (.maintain c candidate decision pc') := by
  cases pc' with
  | stripe | requeueRead | preRead => trivial
  | requeueWrite m =>
    obtain ⟨rfl, rfl, hm, -⟩ := h
    exact hm
  | unlink =>
    obtain ⟨rfl, rfl, hm⟩ := h
    exact hm
  | evictRead =>
    rcases h with ⟨rfl, rfl, hstale⟩ | ⟨rfl, rfl⟩
    · exact fun hm => absurd hm hstale
    · exact fun _ => Disk.kindAt_unlink_self ..
  | evictWrite found =>
    obtain ⟨rfl, rfl, hfound⟩ := h
    exact ⟨hfound, hk⟩

/-- A task's own step establishes what it knows next. -/
theorem knows_local (h : Task.step E i e s t = some (s', t')) (hk : Knows E (t.view E s i) t) :
    Knows E (t'.view E s' i) t' := by
  have hfrom := step_from h
  cases t' with
  | publish r pc' =>
    rcases hfrom with ⟨-, -, rfl⟩ | ⟨pc, rfl, hfrom⟩
    · trivial
    · exact knows_publish hfrom hk
  | locate c a pc' =>
    cases pc' with
    | removeWrite found =>
      rcases hfrom with ⟨-, -, hpc⟩ | ⟨pc, rfl, rfl, rfl, hfound⟩
      · cases hpc
      · exact hfound
    | _ => trivial
  | maintain c candidate decision pc' =>
    rcases hfrom with ⟨-, -, rfl⟩ | ⟨pc, rfl, hfrom⟩
    · trivial
    · exact knows_maintain hfrom hk
  | reconcile c a pc' =>
    cases pc' with
    | remove =>
      rcases hfrom with ⟨-, -, hpc⟩ | ⟨pc, rfl, rfl, rfl, hnone⟩
      · cases hpc
      · exact hnone
    | _ => trivial
  | _ => trivial

/-! ## Conditions on runs -/

/-- No deletion takes a step. -/
def NoDelete (p : Shard ι) : Action ι → Prop
  | .thread i _ => ¬ (p.task i).isDelete
  | _ => True

/-- The artifact whose body the next step of an eviction unlinks. -/
def Task.evicts : Task → Option (ChannelId × ArtifactId)
  | .maintain c candidate _ .unlink => some (c, candidate.artifact)
  | _ => none

/-- No eviction unlinks the body of `(c, a)`. -/
def NotEvicting (c : ChannelId) (a : ArtifactId) (p : Shard ι) : Action ι → Prop
  | .thread i _ => (p.task i).evicts ≠ some (c, a)
  | _ => True

instance (c : ChannelId) (a : ArtifactId) (p : Shard ι) : DecidablePred (NotEvicting c a p)
  | .thread i _ => inferInstanceAs (Decidable ((p.task i).evicts ≠ some (c, a)))
  | .crash | .losePower _ _ => .isTrue trivial

omit [DecidableEq ι] in
theorem knows_lost (v : View) (t : Task) : Knows E v t.lost := by
  cases t <;> trivial

/-- In runs without deletions every task knows what its program counter says. -/
theorem knows_of_reach {G : Shard ι → Action ι → Prop} (hG : ∀ p a, G p a → NoDelete p a)
    {p : Shard ι} (h : (shard E).Reach G p) :
    ∀ j, Knows E ((p.task j).view E p.shared j) (p.task j) := by
  refine h.invariant_of_reach
    (I := fun p => ∀ j, Knows E ((p.task j).view E p.shared j) (p.task j)) ?_ ?_
  · rintro _ ⟨expirySeconds, now, rfl⟩ j
    trivial
  · intro x a y hx hknows ha hstep
    cases a with
    | thread i e =>
      exact assertion_fire (locked_of_reach hx) hstep (hG x _ ha) hknows
        (knows_local (Shard.fire_eq_some hstep).1 (hknows i))
    | crash =>
      obtain rfl : y = x.crash := hstep
      exact fun j => knows_lost _ (x.task j)
    | losePower d z =>
      obtain ⟨-, -, rfl⟩ := hstep
      exact fun j => knows_lost _ (x.task j)

/-- In runs without deletions a directory never stands where a body belongs. -/
theorem body_is_file_of_reach {G : Shard ι → Action ι → Prop} (hG : ∀ p a, G p a → NoDelete p a)
    {p : Shard ι} (h : (shard E).Reach G p) (c : ChannelId) (a : ArtifactId) :
    p.shared.kindAt (path c a) ≠ some .dir := by
  refine h.invariant_of_reach (I := fun p => p.shared.kindAt (path c a) ≠ some .dir) ?_ ?_
  · rintro _ ⟨expirySeconds, now, rfl⟩
    simp [Shard.fresh]
  · intro x act y hx hfile hact hstep
    cases act with
    | thread i e =>
      have hknows := knows_of_reach hG hx i
      cases (step_move (Shard.fire_eq_some hstep).1).body_change c a with
      | keep hkeep => rwa [hkeep]
      | renamed ht _ _ _ hkind =>
        rw [ht] at hknows
        rw [hkind, show x.shared.kindAt _ = _ from hknows.1]
        simp
      | evicted _ _ _ hnone | reconciled _ hnone | deleted _ hnone => simp [hnone]
    | crash =>
      obtain rfl : y = x.crash := hstep
      show x.shared.restart.kindAt (path c a) ≠ some .dir
      rwa [Shared.restart_kindAt _ (isTmpPath_path c a)]
    | losePower d z =>
      obtain ⟨hlose, -, rfl⟩ := hstep
      show Shared.kindAt (Shared.restart _) (path c a) ≠ some .dir
      rw [Shared.restart_kindAt _ (isTmpPath_path c a)]
      exact hlose.kindAt_ne_dir hfile

end Flywheel
