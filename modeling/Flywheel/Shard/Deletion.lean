import Flywheel.Shard.Gates
import Flywheel.Shard.Ownership

/-!
# Deletion is complete

A deletion removes the data of its channel, then the directory, then the registry record,
all under the exclusive side of the channel's gate. Publications and reference writes are
fenced, so none of them is at work then (`Gated.not_fenced`); lookups, evictions and startup
recovery only ever remove. The requeue of a maintenance pass does neither: it reads a
record and writes it back under the stripe alone. If the data of the channel is deleted in
between, the requeue brings a record and a queue row back (`deletion_incomplete`).

`NoStaleRequeue` excludes that. `Drained` and `Swept` then hold from the two removals on, and
once a deletion has returned and the other operations are over, nothing of the channel is
left.
-/

set_option autoImplicit false

namespace Flywheel

open Lib

variable {ι : Type} {E : Env ι} {i : ι} {e : Event} {s s' : Shared ι} {t t' : Task}

/-! ## Where a task is -/

/-- The channel of a record that a requeue has read and will write back. -/
def Task.requeues : Task → Option ChannelId
  | .maintain c _ _ (.requeueWrite _) => some c
  | _ => none

/-- The channel whose data a deletion has removed. -/
def Task.drains : Task → Option ChannelId
  | .delete c _ pc =>
    match pc with
    | .removeDir _ | .finish _ | .forget _ => some c
    | _ => none
  | .done (.deleted c) => some c
  | _ => none

/-- The channel whose directory a deletion has removed. -/
def Task.sweeps : Task → Option ChannelId
  | .delete c _ pc =>
    match pc with
    | .finish _ | .forget _ => some c
    | _ => none
  | .done (.deleted c) => some c
  | _ => none

/-- The channel in whose staging directory a task may have a file. -/
def Task.stages : Task → Option ChannelId
  | .publish r pc =>
    match pc with
    | .stageDir | .stageOpen | .syncParent _ | .commitRead _ | .commitWrite _ _ => none
    | _ => some r.channel
  | _ => none

/-- The channel of a task that has removed its data is gone, or the task still holds the
exclusive side of its gate. -/
theorem Task.forgets_of_drains {c : ChannelId} (h : t.drains = some c) :
    t.forgets = some c ∨ ∃ g, t.writeGate = some (c, g) := by
  cases t with
  | delete c' credential pc =>
    cases pc <;> first | (cases h; exact .inr ⟨_, rfl⟩) | cases h
  | done o =>
    cases o with
    | deleted c' => exact .inl h
    | _ => cases h
  | _ => cases h

/-! ## The condition on the runs -/

/-- Any interleaving, with failures other than that of removing a staged file, and with
crashes. -/
def Orderly (p : Shard ι) : Action ι → Prop
  | .thread i e =>
    match p.task i with
    | .publish _ .discard | .publish _ (.discardLocked _) => e.isFail = false
    | _ => True
  | .crash => True
  | .losePower _ _ => False

/-- When a deletion removes the data of its channel, no requeue is between its read of a
record of the channel and its write. -/
def NoStaleRequeue (p : Shard ι) : Action ι → Prop
  | .thread i _ =>
    match p.task i with
    | .delete c _ (.deleteData _) => ∀ j, (p.task j).requeues ≠ some c
    | _ => True
  | _ => True

/-! ## What becomes of a path -/

/-- What becomes of the path `q` in a step of thread `i`. -/
inductive PathChange (E : Env ι) (i : ι) (s : Shared ι) (t : Task) (s' : Shared ι) (q : Path) :
    Prop
  | keep (h : s'.kindAt q = s.kindAt q)
  | removed (h : s'.kindAt q = none)
  | made (h : s'.kindAt q = some .dir)
    (hq : (∃ c, q <+: tmpDir c) ∨ ∃ c a, q <+: shardDir c a)
  | staged {r : PublishRequest} {pc : PublishPc} (ht : t = .publish r pc) (hq : q = r.part E i)
  | published {r : PublishRequest} {f : Fence} (ht : t = .publish r (.rename f))
    (hq : q = r.final E)

section Steps

variable [DecidableEq ι]

theorem Move.path_change (h : Move E i s t s' t') (q : Path) : PathChange E i s t s' q := by
  have hunlink : ∀ p, s'.disk = s.disk.unlink p → PathChange E i s t s' q := by
    intro p hd
    by_cases hq : q = p
    · exact .removed (by rw [Shared.kindAt, hd, hq, Disk.kindAt_unlink_self])
    · exact .keep (by rw [Shared.kindAt, hd, Disk.kindAt_unlink hq, Shared.kindAt])
  have hmkdir : ∀ p, s'.disk = s.disk.mkdirAll p →
      ((∃ c, p = tmpDir c) ∨ ∃ c a, p = shardDir c a) → PathChange E i s t s' q := by
    intro p hd hp
    rcases Disk.kindAt_mkdirAll_cases s.disk p q with hkeep | ⟨hpre, hdir⟩
    · exact .keep (by rw [Shared.kindAt, hd, hkeep, Shared.kindAt])
    · refine .made (by rw [Shared.kindAt, hd, hdir]) ?_
      rcases hp with ⟨c, rfl⟩ | ⟨c, a, rfl⟩
      · exact .inl ⟨c, hpre⟩
      · exact .inr ⟨c, a, hpre⟩
  cases h.disk with
  | keep hd => exact .keep (by rw [Shared.kindAt, hd, Shared.kindAt])
  | stageDir ht hd => exact hmkdir _ hd (.inl ⟨_, rfl⟩)
  | shardDir ht hd => exact hmkdir _ hd (.inr ⟨_, _, rfl⟩)
  | @stageOpen r ht hd =>
    by_cases hq : q = r.part E i
    · exact .staged ht hq
    · exact .keep (Disk.kindAt_createNew hd hq)
  | @stageWrite r ht hd =>
    by_cases hq : q = r.part E i
    · exact .staged ht hq
    · exact .keep (by rw [Shared.kindAt, hd, Disk.kindAt_write hq, Shared.kindAt])
  | @stageSync r ht hd =>
    by_cases hq : q = r.part E i
    · exact .staged ht hq
    · refine .keep ?_
      rw [Shared.kindAt, hd]
      exact s.syncDisk_kindAt (Disk.kindAt_syncFile hq)
  | @rename r f ht ht' hd =>
    by_cases hpart : q = r.part E i
    · exact .staged ht hpart
    by_cases hfinal : q = r.final E
    · exact .published ht hfinal
    · exact .keep (Disk.kindAt_rename hd hpart hfinal)
  | syncParent ht hd =>
    refine .keep ?_
    rw [Shared.kindAt, hd]
    exact s.syncDisk_kindAt (Disk.kindAt_syncDir ..)
  | removePart ht hd | evict ht ht' hd | reconcile ht hd | removeDir p ht hp hd =>
    exact hunlink _ hd

/-! ## Staged files -/

/-- A publication's step that does not fail is resolved by a clock reading. -/
theorem event_of_step {r : PublishRequest} {pc : PublishPc}
    (h : publishStep E i r pc e s = some (s', t')) (hfail : e.isFail = false) :
    ∃ now, e = .run now := by
  cases e with
  | run now => exact ⟨now, rfl⟩
  | fail => cases hfail
  | start op | remove q => cases pc <;> cases h

/-- A publication that has, or had, a staged file has one after its next step only if it
still knows of it. -/
theorem stages_of_step {r : PublishRequest} {pc : PublishPc}
    (h : publishStep E i r pc e s = some (s', t'))
    (hfail : pc = .discard ∨ (∃ f, pc = .discardLocked f) → e.isFail = false)
    {content : Bytes} {synced : Bool}
    (hpart : s.kindAt (r.part E i) = some (.file content synced) →
      (Task.publish r pc).stages = some r.channel)
    (hpart' : s'.kindAt (r.part E i) = some (.file content synced)) :
    t'.stages = some r.channel := by
  have hkeep : (Task.publish r pc).stages = none → s'.kindAt (r.part E i) = s.kindAt (r.part E i) →
      t'.stages = some r.channel := by
    intro hnone hsame
    rw [hsame] at hpart'
    rw [hpart hpart'] at hnone
    cases hnone
  have hgone : s'.kindAt (r.part E i) = none → t'.stages = some r.channel := by
    intro hnone
    rw [hnone] at hpart'
    cases hpart'
  rcases publishStep_task h with ⟨pc', rfl⟩ | ⟨o, rfl⟩
  · have hfrom := publishStep_to h
    cases pc' with
    | stageDir => exact hfrom.elim
    | stageOpen =>
      obtain ⟨rfl, rfl⟩ := hfrom
      exact hkeep rfl (Disk.kindAt_mkdirAll (by simp [PublishRequest.part]))
    | syncParent f =>
      obtain ⟨rfl, d, hd, rfl⟩ := hfrom
      exact hgone (Disk.kindAt_rename_source hd (tmpPath_ne_path _ _ _ _))
    | commitRead f =>
      rcases hfrom with ⟨rfl, rfl⟩ | ⟨rfl, rfl⟩
      · exact hgone (Disk.kindAt_unlink_self ..)
      · exact hkeep rfl (s.syncDisk_kindAt (Disk.kindAt_syncDir ..))
    | commitWrite f found =>
      obtain ⟨rfl, rfl, -⟩ := hfrom
      exact hkeep rfl rfl
    | _ => rfl
  · rcases publishStep_end h with ⟨f, found, now, rfl, -, rfl⟩ | ⟨-, hend⟩
    · exact hkeep rfl (by cases r.durability <;> rfl)
    · rcases hend with ⟨rfl, rfl | rfl⟩ | ⟨rfl, rfl⟩ |
        ⟨f, rfl, rfl | rfl | ⟨found, rfl⟩ | rfl⟩ | ⟨f, rfl, rfl⟩
      · exact hkeep rfl rfl
      · -- a discard that does not fail removes the file
        obtain ⟨now, rfl⟩ := event_of_step h (hfail (.inl rfl))
        have hs := congrArg (·.kindAt (r.part E i)) (Prod.mk.inj (Option.some.inj h)).1
        exact hgone (hs.symm.trans (Disk.kindAt_unlink_self ..))
      · exact hgone (Disk.kindAt_unlink_self ..)
      · exact hkeep rfl rfl
      · exact hkeep rfl rfl
      · exact hkeep rfl rfl
      · obtain ⟨now, rfl⟩ := event_of_step h (hfail (.inr ⟨f, rfl⟩))
        have hs := congrArg (·.kindAt (r.part E i)) (Prod.mk.inj (Option.some.inj h)).1
        exact hgone (hs.symm.trans (Disk.kindAt_unlink_self ..))
      · exact hgone (Disk.kindAt_unlink_self ..)

end Steps

/-- Files are published bodies, or uploads that their threads know of. -/
structure Staging (E : Env ι) (p : Shard ι) : Prop where
  part : ∀ k c content synced,
    p.shared.kindAt (tmpPath c (E.partName k)) = some (.file content synced) →
      (p.task k).stages = some c
  placed : ∀ q content synced, p.shared.kindAt q = some (.file content synced) →
    (∃ c a, q = path c a) ∨ ∃ c k, q = tmpPath c (E.partName k)

variable {p p' : Shard ι}

theorem Task.stages_eq_some {c : ChannelId} (h : t.stages = some c) :
    ∃ r pc, t = .publish r pc ∧ r.channel = c := by
  cases t with
  | publish r pc => cases pc <;> first | (cases h; exact ⟨r, _, rfl, rfl⟩) | cases h
  | _ => cases h

section Fire

variable [DecidableEq ι]

theorem Staging.part_fire (h : Staging E p) (hact : Orderly p (.thread i e))
    (hfire : p.fire E i e = some p') {k : ι} {c : ChannelId} {content : Bytes} {synced : Bool}
    (hk : p'.shared.kindAt (tmpPath c (E.partName k)) = some (.file content synced)) :
    (p'.task k).stages = some c := by
  obtain ⟨hstep, hothers⟩ := Shard.fire_eq_some hfire
  by_cases hown : k = i ∧ ∃ r pc, p.task i = .publish r pc ∧ r.channel = c
  · obtain ⟨rfl, r, pc, ht, rfl⟩ := hown
    have hold := h.part k r.channel content synced
    rw [ht] at hstep hold
    refine stages_of_step hstep ?_ hold hk
    rintro (rfl | ⟨f, rfl⟩) <;> simpa only [Orderly, ht] using hact
  · -- nobody else makes the file
    have hold : p.shared.kindAt (tmpPath c (E.partName k)) = some (.file content synced) := by
      cases (step_move hstep).path_change (tmpPath c (E.partName k)) with
      | keep hs => rwa [hs] at hk
      | removed hs =>
        rw [hs] at hk
        cases hk
      | made _ hq => rcases hq with ⟨c', hq⟩ | ⟨c', a, hq⟩ <;> simp at hq
      | @staged r pc ht hq =>
        obtain ⟨hc, hname⟩ := tmpPath_inj.mp hq
        exact absurd ⟨E.partName_inj hname, r, pc, ht, hc.symm⟩ hown
      | published ht hq => exact absurd hq (tmpPath_ne_path _ _ _ _)
    have hstages := h.part k c content synced hold
    by_cases hki : k = i
    · subst hki
      exact absurd ⟨rfl, Task.stages_eq_some hstages⟩ hown
    · rw [hothers k hki]
      exact hstages

theorem Staging.placed_fire (h : Staging E p) (hfire : p.fire E i e = some p') {q : Path}
    {content : Bytes} {synced : Bool} (hq : p'.shared.kindAt q = some (.file content synced)) :
    (∃ c a, q = path c a) ∨ ∃ c k, q = tmpPath c (E.partName k) := by
  cases (step_move (Shard.fire_eq_some hfire).1).path_change q with
  | keep hs =>
    rw [hs] at hq
    exact h.placed q content synced hq
  | removed hs =>
    rw [hs] at hq
    cases hq
  | made hs =>
    rw [hs] at hq
    cases hq
  | staged ht hpart => exact .inr ⟨_, i, hpart⟩
  | published ht hfinal => exact .inl ⟨_, _, hfinal⟩

omit [DecidableEq ι] in
/-- Startup removes every staged file. -/
theorem Staging.crash (h : Staging E p) : Staging E p.crash := by
  have htmp := @removeTemporaryFiles_of_tmp p.shared.disk
  refine ⟨fun k c content synced hk => ?_, fun q content synced hq => ?_⟩
  · exact absurd hk (htmp (isTmpPath_tmpPath ..) content synced)
  · by_cases hq' : isTmpPath q = true
    · exact absurd hq (htmp hq' content synced)
    · refine h.placed q content synced ?_
      rwa [← p.shared.restart_kindAt (Bool.eq_false_iff.mpr hq')]

/-! ## A channel without data -/

/-- The channel has no data, and nobody is about to write a record of it back. -/
structure Drained (c : ChannelId) (p : Shard ι) : Prop where
  data : RocksMetadata.NoData c p.shared.store.current
  unread : ∀ k, (p.task k).requeues ≠ some c

/-- The channel has no published body. -/
def Swept (c : ChannelId) (p : Shard ι) : Prop := ∀ a, p.shared.kindAt (path c a) = none

/-- Who does not work under the fence of a channel without data gives it none, unless it is
a requeue. -/
theorem Move.noData (h : Move E i s t s' t') {c : ChannelId}
    (hdata : RocksMetadata.NoData c s.store.current) (hfenced : t.fenced ≠ some c)
    (hrequeue : t.requeues ≠ some c) : RocksMetadata.NoData c s'.store.current := by
  cases h.store with
  | keep hs => rwa [hs]
  | publication now ht hs =>
    rw [hs, Shared.commit_current]
    exact hdata.commitBatch (fun hc => hfenced (by rw [ht, ← hc]; rfl)) _ _ _
  | heal ht hs =>
    rw [hs, Shared.commit_current]
    exact hdata.removeBatch _
  | requeue ht hs =>
    rw [hs, Shared.commit_current]
    exact hdata.requeueBatch (fun hc => hrequeue (by rw [ht, ← hc]; rfl)) _ _ _
  | evict ht hs =>
    rw [hs, Shared.commit_current]
    exact hdata.evictBatch _ _
  | @reference c' name op g now ht hs =>
    rw [hs]
    cases op with
    | bind artifact etag lastModified durability =>
      rw [ReferenceOp.commit, Shared.commit_current]
      exact hdata.bindReference (fun hc => hfenced (by rw [ht, ← hc]; rfl)) _ _
    | delete =>
      rw [ReferenceOp.commit, Shared.commit_current]
      exact hdata.deleteReference _
  | deleteData ht hs =>
    rw [hs, Shared.commit_current]
    exact hdata.deleteChannelData
  | register ht hs | patch ht hs | delete ht hs | finish ht hs =>
    rw [hs, Shared.commit_current]
    exact ⟨hdata.artifacts, hdata.references, hdata.eviction⟩

/-- A requeue has read the record it will write back. -/
theorem requeues_of_step (h : Task.step E i e s t = some (s', t')) {c : ChannelId}
    (hc : t'.requeues = some c) : ∃ a m, s.record c a = some m := by
  cases t' with
  | maintain c' candidate decision pc' =>
    cases pc' with
    | requeueWrite m =>
      cases hc
      rcases step_from h with ⟨-, -, hpc⟩ | ⟨pc, -, -, -, hm, -⟩
      · cases hpc
      · exact ⟨_, m, hm⟩
    | _ => cases hc
  | _ => cases hc

theorem Drained.fire {c : ChannelId} (h : Drained c p) (hfire : p.fire E i e = some p')
    (hfenced : (p.task i).fenced ≠ some c) : Drained c p' := by
  obtain ⟨hstep, hothers⟩ := Shard.fire_eq_some hfire
  refine ⟨(step_move hstep).noData h.data hfenced (h.unread i), fun k hk => ?_⟩
  by_cases hki : k = i
  · subst hki
    obtain ⟨a, m, hm⟩ := requeues_of_step hstep hk
    rw [Shared.record, h.data.artifact_eq_none] at hm
    cases hm
  · rw [hothers k hki] at hk
    exact h.unread k hk

theorem Swept.fire {c : ChannelId} (h : Swept c p) (hfire : p.fire E i e = some p')
    (hfenced : (p.task i).fenced ≠ some c) : Swept c p' := by
  intro a
  cases (step_move (Shard.fire_eq_some hfire).1).body_change c a with
  | keep hs => rw [hs, h a]
  | renamed ht _ hc => exact absurd (by rw [ht, ← hc]; rfl) hfenced
  | evicted _ _ _ hs | reconciled _ hs | deleted _ hs => exact hs

omit [DecidableEq ι] in
/-- `remove_dir_all` is over when nothing is left in the directory. -/
theorem swept_of_empty {c : ChannelId} (h : (channelEntries p.shared.disk c).isEmpty) :
    Swept c p := by
  intro a
  rw [Shared.kindAt, Disk.kindAt, Option.map_eq_none_iff, Option.eq_none_iff_forall_ne_some]
  intro n hn
  have hmem : path c a ∈ channelEntries p.shared.disk c := by
    refine List.mem_filter.mpr ⟨List.mem_map.mpr ⟨(path c a, n), ?_, rfl⟩, ?_⟩
    · exact Std.ExtTreeMap.mem_toList_iff_getElem?_eq_some.mpr hn
    · exact List.isPrefixOf_iff_prefix.mpr (channelDir_prefix_path.mpr rfl)
  rw [List.isEmpty_iff.mp h] at hmem
  cases hmem

end Fire

/-! ## From the removals on -/

section Fire

variable [DecidableEq ι]

/-- A deletion past the removal of the data was there before, or has just removed it. -/
theorem drains_of_step (h : Task.step E i e s t = some (s', t')) {c : ChannelId}
    (hc : t'.drains = some c) :
    t.drains = some c ∨ ∃ credential g, t = .delete c credential (.deleteData g) ∧
      s' = s.commit .durable (·.deleteChannelData c) := by
  cases t' with
  | delete c' credential pc' =>
    rcases step_from h with ⟨-, -, ⟨rfl, -⟩ | rfl⟩ | ⟨pc, rfl, hfrom⟩
    · cases hc
    · cases hc
    cases pc' with
    | removeDir g =>
      cases hc
      rcases hfrom with ⟨rfl, hs⟩ | ⟨rfl, -⟩
      · exact .inr ⟨credential, g, rfl, hs⟩
      · exact .inl rfl
    | finish | forget =>
      obtain ⟨rfl, -⟩ := hfrom
      exact .inl hc
    | _ => cases hc
  | done o =>
    cases o with
    | deleted c' =>
      cases hc
      obtain ⟨credential, g, rfl, -⟩ := step_to_deleted h
      exact .inl rfl
    | _ => cases hc
  | _ => cases hc

/-- A deletion past the removal of the directory was there before, or has just found it
empty. -/
theorem sweeps_of_step (h : Task.step E i e s t = some (s', t')) {c : ChannelId}
    (hc : t'.sweeps = some c) :
    t.sweeps = some c ∨ (s' = s ∧ (channelEntries s.disk c).isEmpty) := by
  cases t' with
  | delete c' credential pc' =>
    rcases step_from h with ⟨-, -, ⟨rfl, -⟩ | rfl⟩ | ⟨pc, rfl, hfrom⟩
    · cases hc
    · cases hc
    cases pc' with
    | finish g =>
      cases hc
      obtain ⟨rfl, hs, hempty⟩ := hfrom
      exact .inr ⟨hs, hempty⟩
    | forget =>
      obtain ⟨rfl, -⟩ := hfrom
      exact .inl hc
    | _ => cases hc
  | done o =>
    cases o with
    | deleted c' =>
      cases hc
      obtain ⟨credential, g, rfl, -⟩ := step_to_deleted h
      exact .inl rfl
    | _ => cases hc
  | _ => cases hc

omit [DecidableEq ι] in
theorem Task.drains_of_sweeps {c : ChannelId} (h : t.sweeps = some c) : t.drains = some c := by
  cases t with
  | delete c' credential pc => cases pc <;> first | exact h | cases h
  | done o =>
    cases o with
    | deleted c' => exact h
    | _ => cases h
  | _ => cases h

/-- What the deletions in the shard, and those that have returned, have removed so far. -/
structure Removed (p : Shard ι) : Prop where
  drained : ∀ k c, (p.task k).drains = some c → Drained c p
  swept : ∀ k c, (p.task k).sweeps = some c → Swept c p

omit [DecidableEq ι] in
/-- From the removal of its data on, nobody works under the fence of a channel. -/
theorem Gated.not_fenced_of_drains {p : Shard ι} (h : Gated p) (hlocked : Locked E p) {k : ι}
    {c : ChannelId} (hk : (p.task k).drains = some c) (j : ι) : (p.task j).fenced ≠ some c := by
  rcases Task.forgets_of_drains hk with hforgets | ⟨g, hg⟩
  · exact fun hj => (h.forgets k c hforgets).not_isSome (h.fenced j c hj)
  · exact h.not_fenced hlocked hg j

theorem Removed.fire (h : Removed p) (hgated : Gated p) (hlocked : Locked E p)
    (hguard : NoStaleRequeue p (.thread i e)) (hfire : p.fire E i e = some p') : Removed p' := by
  obtain ⟨hstep, hothers⟩ := Shard.fire_eq_some hfire
  have hdrained : ∀ {k c}, (p.task k).drains = some c → Drained c p' := fun hk =>
    (h.drained _ _ hk).fire hfire (hgated.not_fenced_of_drains hlocked hk i)
  have hswept : ∀ {k c}, (p.task k).sweeps = some c → Swept c p' := fun hk =>
    (h.swept _ _ hk).fire hfire
      (hgated.not_fenced_of_drains hlocked (Task.drains_of_sweeps hk) i)
  refine ⟨fun k c hk => ?_, fun k c hk => ?_⟩
  · by_cases hki : k = i
    · subst hki
      rcases drains_of_step hstep hk with hold | ⟨credential, g, ht, hs⟩
      · exact hdrained hold
      · refine ⟨?_, fun j hj => ?_⟩
        · rw [hs, Shared.commit_current]
          exact RocksMetadata.NoData.deleteChannelData_self ..
        · by_cases hjk : j = k
          · -- the deletion itself is no requeue
            subst hjk
            cases ht' : p'.task j with
            | maintain =>
              rw [ht'] at hk
              cases hk
            | _ =>
              rw [ht'] at hj
              cases hj
          · rw [hothers j hjk] at hj
            simp only [NoStaleRequeue, ht] at hguard
            exact hguard j hj
    · rw [hothers k hki] at hk
      exact hdrained hk
  · by_cases hki : k = i
    · subst hki
      rcases sweeps_of_step hstep hk with hold | ⟨hs, hempty⟩
      · exact hswept hold
      · intro a
        rw [hs]
        exact swept_of_empty hempty a
    · rw [hothers k hki] at hk
      exact hswept hk

omit [DecidableEq ι] in
theorem Removed.crash (h : Removed p) : Removed p.crash := by
  have hdrains : ∀ t : Task, ∀ c, t.lost.drains = some c → t.drains = some c := by
    intro t c hc
    cases t <;> first | exact hc | cases hc
  have hsweeps : ∀ t : Task, ∀ c, t.lost.sweeps = some c → t.sweeps = some c := by
    intro t c hc
    cases t <;> first | exact hc | cases hc
  refine ⟨fun k c hk => ⟨(h.drained k c (hdrains _ c hk)).data, fun j hj => ?_⟩, fun k c hk a => ?_⟩
  · dsimp only [Shard.crash] at hj
    cases ht : p.task j <;> rw [ht] at hj <;> cases hj
  · exact (p.shared.restart_kindAt (isTmpPath_path c a)).trans (h.swept k c (hsweeps _ c hk) a)

theorem removed_of_reach (h : (shard E).Reach (fun p a => Orderly p a ∧ NoStaleRequeue p a) p) :
    Removed p ∧ Staging E p := by
  refine h.invariant_of_reach (I := fun p => Removed p ∧ Staging E p) ?_ ?_
  · rintro _ ⟨expirySeconds, now, rfl⟩
    refine ⟨⟨fun k c hk => ?_, fun k c hk => ?_⟩,
      ⟨fun k c content synced hk => ?_, fun q content synced hq => ?_⟩⟩
    · cases hk
    · cases hk
    · cases hk
    · cases hq
  · rintro x a y hx ⟨hremoved, hstaging⟩ ⟨hact, hguard⟩ hstep
    cases a with
    | thread i e =>
      exact ⟨hremoved.fire (gated_of_reach hx) (locked_of_reach hx) hguard hstep,
        ⟨fun k c content synced hk => hstaging.part_fire hact hstep hk,
          fun q content synced hq => hstaging.placed_fire hstep hq⟩⟩
    | crash =>
      obtain rfl : y = x.crash := hstep
      exact ⟨hremoved.crash, hstaging.crash⟩
    | losePower d z => exact hact.elim

/-- Not started yet, or returned. -/
def Task.isOver : Task → Bool
  | .idle | .done _ => true
  | _ => false

omit [DecidableEq ι] in
theorem Busy.all_over {L : List ι} (h : Busy L p) (hL : L.all (fun k => (p.task k).isOver) = true)
    (k : ι) : (p.task k).isOver = true := by
  by_cases hk : k ∈ L
  · exact List.all_eq_true.mp hL k hk
  · rw [h k hk]
    rfl

/-- In every run without a stale requeue, once a deletion has returned and every operation
that has started is over, nothing is left of the channel: no key in the store, no file in
its directory, and no registry record. -/
theorem deletion_is_complete
    (h : (shard E).Reach (fun p a => Orderly p a ∧ NoStaleRequeue p a) p) {c : ChannelId}
    (hdeleted : p.task i = .done (.deleted c)) (hover : ∀ k, (p.task k).isOver = true) :
    (∀ key, c.asKey <+: key →
      p.shared.store.current.artifacts[key]? = none ∧
      p.shared.store.current.references[key]? = none ∧
      p.shared.store.current.eviction[key]? = none) ∧
    (∀ q, channelDir c <+: q → p.shared.disk.content q = none) ∧
    p.shared.channel c = none := by
  obtain ⟨hremoved, hstaging⟩ := removed_of_reach h
  have hdata := (hremoved.drained i c (by rw [hdeleted]; rfl)).data
  have hswept := hremoved.swept i c (by rw [hdeleted]; rfl)
  have hgone := (gated_of_reach h).forgets i c (by rw [hdeleted]; rfl)
  refine ⟨fun key hkey => ⟨hdata.artifacts key hkey, hdata.references key hkey,
    hdata.eviction key hkey⟩, fun q hq => ?_, hgone.vacant.absent⟩
  rw [Disk.content]
  cases hk : p.shared.disk.kindAt q with
  | none => rfl
  | some kind =>
    cases kind with
    | dir => rfl
    | file content synced =>
      rcases hstaging.placed q content synced hk with ⟨c', a, rfl⟩ | ⟨c', k, rfl⟩
      · obtain rfl := channelDir_prefix_path.mp hq
        exact absurd (hk.symm.trans (hswept a)) (by simp)
      · -- a staged file has a publication in progress
        have hstages := hstaging.part k c' content synced hk
        obtain ⟨r, pc, ht, -⟩ := Task.stages_eq_some hstages
        have hk := hover k
        rw [ht] at hk
        cases hk

/-! ## A stale requeue -/

/-- Register a channel, publish the body `a` to it, let a requeue take that many steps, and
delete the channel. -/
def publishAndDelete (requeueSteps : Nat) : List (Action (BitVec 128)) :=
  .thread 0 (.start (.register (sampleRecord 100 .active))) :: steps 0 5 3 ++
  .thread 1 (.start (.publish (sampleUpload sampleChannel .bestEffort .identity))) ::
    steps 1 100 14 ++
  .thread 2 (.start (.maintain sampleChannel ⟨200, sampleArtifact⟩ (.requeue 500))) ::
    steps 2 300 requeueSteps ++
  .thread 3 (.start (.delete sampleChannel none)) :: steps 3 310 8 ++
  -- `remove_dir_all` from the leaves up
  ([path sampleChannel sampleArtifact, shardDir sampleChannel sampleArtifact,
    (shardDir sampleChannel sampleArtifact).dropLast,
    (shardDir sampleChannel sampleArtifact).dropLast.dropLast,
    tmpDir sampleChannel, channelDir sampleChannel].map fun q => .thread 3 (.remove q)) ++
  steps 3 320 3

/-- An interleaving without failures and crashes. -/
def Action.isPlain : Action ι → Bool
  | .thread _ e => !e.isFail
  | _ => false

omit [DecidableEq ι] in
theorem Action.isPlain.orderly {a : Action ι} (h : a.isPlain = true) (p : Shard ι) :
    Orderly p a := by
  cases a with
  | thread i e =>
    have hfail : e.isFail = false := by simpa [Action.isPlain] using h
    unfold Orderly
    dsimp only
    split
    · exact hfail
    · exact hfail
    · trivial
  | _ => cases h

/-- A requeue that read the record before the data was deleted writes it back, and the
deleted channel has an artifact and a queue row. -/
theorem deletion_incomplete : ∃ p : Shard (BitVec 128),
    (shard sampleEnv).Reach (fun _ a => a.isPlain = true) p ∧
      p.task 3 = .done (.deleted sampleChannel) ∧ (∀ k, (p.task k).isOver = true) ∧
      p.shared.store.current.artifacts[artifactKey sampleChannel sampleArtifact]? =
        some ⟨1, none, 100, 500, 1, .identity⟩ ∧
      p.shared.store.current.eviction[evictionKey sampleChannel 500 sampleArtifact]? = some () := by
  let L : List (BitVec 128) := [0, 1, 2, 3]
  have hrun : (System.exec (Shard.act sampleEnv) (fun _ a => a.within L && a.isPlain)
      (Shard.fresh _ 100 0) (publishAndDelete 2 ++ steps 2 400 1)).any (fun p =>
    decide (p.task 3 = .done (.deleted sampleChannel)) && L.all (fun k => (p.task k).isOver) &&
    decide (p.shared.store.current.artifacts[artifactKey sampleChannel sampleArtifact]? =
        some ⟨1, none, 100, 500, 1, .identity⟩ ∧
      p.shared.store.current.eviction[evictionKey sampleChannel 500 sampleArtifact]? =
        some ())) = true := by
    decide
  obtain ⟨p, hsteps, hbusy, hp⟩ := steps_of_busySample (G := fun _ a => a.isPlain = true) _
    (fun _ _ _ h => h) (Busy.fresh L 100 0) hrun
  obtain ⟨hp, hleft⟩ := (Bool.and_eq_true _ _).mp hp
  obtain ⟨hdeleted, hover⟩ := (Bool.and_eq_true _ _).mp hp
  obtain ⟨hrecord, hrow⟩ := of_decide_eq_true hleft
  exact ⟨p, ⟨_, ⟨_, _, rfl⟩, hsteps⟩, of_decide_eq_true hdeleted, hbusy.all_over hover, hrecord,
    hrow⟩

/-- The condition of the theorem, evaluated on a shard where only the threads in `L` run. -/
def noStaleRequeue (L : List ι) (p : Shard ι) : Action ι → Bool
  | .thread i _ =>
    match p.task i with
    | .delete c _ (.deleteData _) => L.all fun j => (p.task j).requeues != some c
    | _ => true
  | _ => true

omit [DecidableEq ι] in
theorem noStaleRequeue_sound {L : List ι} {a : Action ι} (hp : Busy L p)
    (h : noStaleRequeue L p a = true) : NoStaleRequeue p a := by
  cases a with
  | thread i e =>
    unfold NoStaleRequeue
    unfold noStaleRequeue at h
    dsimp only at h ⊢
    split
    · rename_i c credential g ht
      simp only [ht, List.all_eq_true, bne_iff_ne, ne_eq] at h
      intro j hj
      by_cases hmem : j ∈ L
      · exact h j hmem hj
      · rw [hp j hmem] at hj
        cases hj
    · trivial
  | _ => trivial

/-- When the requeue is over before the data is deleted, nothing is left. -/
theorem deletion_complete_after_requeue : ∃ p : Shard (BitVec 128),
    (shard sampleEnv).Reach (fun p a => Orderly p a ∧ NoStaleRequeue p a) p ∧
      p.task 3 = .done (.deleted sampleChannel) ∧
      p.shared.store.current.artifacts[artifactKey sampleChannel sampleArtifact]? = none ∧
      p.shared.disk.content (path sampleChannel sampleArtifact) = none ∧
      p.shared.channel sampleChannel = none := by
  let L : List (BitVec 128) := [0, 1, 2, 3]
  have hrun : (System.exec (Shard.act sampleEnv)
      (fun p a => a.within L && (a.isPlain && noStaleRequeue L p a))
      (Shard.fresh _ 100 0) (publishAndDelete 3)).any (fun p =>
    decide (p.task 3 = .done (.deleted sampleChannel)) && L.all (fun k => (p.task k).isOver)) =
      true := by
    decide
  have hok : ∀ (q : Shard (BitVec 128)) a, Busy L q →
      (a.isPlain && noStaleRequeue L q a) = true → Orderly q a ∧ NoStaleRequeue q a := by
    intro q a hq h
    obtain ⟨hplain, hguard⟩ := (Bool.and_eq_true _ _).mp h
    exact ⟨Action.isPlain.orderly hplain q, noStaleRequeue_sound hq hguard⟩
  obtain ⟨p, hsteps, hbusy, hp⟩ := steps_of_busySample _ hok (Busy.fresh L 100 0) hrun
  obtain ⟨hdeleted, hover⟩ := (Bool.and_eq_true _ _).mp hp
  have hreach : (shard sampleEnv).Reach (fun p a => Orderly p a ∧ NoStaleRequeue p a) p :=
    ⟨_, ⟨_, _, rfl⟩, hsteps⟩
  obtain ⟨hkeys, hfiles, hchannel⟩ := deletion_is_complete hreach (of_decide_eq_true hdeleted)
    (hbusy.all_over hover)
  exact ⟨p, hreach, of_decide_eq_true hdeleted, (hkeys _ (List.prefix_append ..)).1,
    hfiles _ (channelDir_prefix_path.mpr rfl), hchannel⟩

end Fire

end Flywheel
