import Flywheel.Cache.Maintenance
import Flywheel.Config

/-!
# What a maintenance pass does, and what repeated passes do

`Effect` collects what one pass may do to a store: which rows it processes, what becomes of them
and of everything else, and how far the budgets carry. `pass_effect` proves it from the log that
the loops were shown to write.
-/

set_option autoImplicit false

namespace Flywheel

open Lib Std

namespace Maintenance

section Rows

variable {mode : SpaceLedger.Mode} {tick : Tick} {s₀ : RocksMetadata} {c : ChannelId}

/-! ## The rows of a pass -/

/-- The pass takes rows from the front of the queue. -/
theorem prefix_handledRows (budget : Budget) (rows : List Candidate) :
    (handledRows mode tick s₀ c budget rows).map (·.candidate) <+: rows := by
  induction rows generalizing budget with
  | nil => exact List.prefix_refl []
  | cons candidate rows ih =>
    rw [handledRows_cons]
    split
    · exact List.nil_prefix
    · split
      · exact List.nil_prefix
      · exact List.cons_prefix_cons.mpr ⟨rfl, ih _⟩

/-- What becomes of a row does not depend on the budget, only whether its turn comes. -/
structure Planned (mode : SpaceLedger.Mode) (tick : Tick) (s₀ : RocksMetadata) (p : Processed) :
    Prop where
  queued : p.candidate ∈ s₀.queue p.channel
  fate : p.handled = fate mode tick s₀ p.channel p.candidate
  due : mode = .normal → p.candidate.eligibleAt ≤ tick.now

theorem planned_handledRows {budget : Budget} {rows : List Candidate}
    (hrows : ∀ candidate ∈ rows, candidate ∈ s₀.queue c) :
    ∀ p ∈ handledRows mode tick s₀ c budget rows, Planned mode tick s₀ p := by
  induction rows generalizing budget with
  | nil => exact fun p hp => by cases hp
  | cons candidate rows ih =>
    intro p hp
    rw [handledRows_cons] at hp
    split at hp
    · cases hp
    · split at hp
      · cases hp
      · rename_i hdue
        rcases List.mem_cons.mp hp with rfl | hp
        · exact ⟨hrows _ List.mem_cons_self, rfl, fun hmode =>
            not_not.mp fun hlate => hdue ⟨hmode, hlate⟩⟩
        · exact ih (fun q hq => hrows q (List.mem_cons_of_mem _ hq)) p hp

theorem planned_handledChannels {budget : Budget} {channels : List ChannelId} :
    ∀ p ∈ handledChannels mode tick s₀ budget channels,
      p.channel ∈ channels ∧ Planned mode tick s₀ p := by
  induction channels generalizing budget with
  | nil => exact fun p hp => by cases hp
  | cons c channels ih =>
    intro p hp
    rcases List.mem_append.mp hp with hp | hp
    · refine ⟨?_, planned_handledRows (fun q hq => hq) p hp⟩
      rw [channel_of_mem_handledRows hp]
      exact List.mem_cons_self
    · obtain ⟨hmem, hplanned⟩ := ih p hp
      exact ⟨List.mem_cons_of_mem c hmem, hplanned⟩

/-- The part of the log that belongs to one channel. -/
def ofChannel (c : ChannelId) (processed : List Processed) : List Processed :=
  processed.filter (·.channel = c)

theorem ofChannel_append (c : ChannelId) (x y : List Processed) :
    ofChannel c (x ++ y) = ofChannel c x ++ ofChannel c y := List.filter_append ..

theorem ofChannel_of_forall {processed : List Processed} (h : ∀ p ∈ processed, p.channel = c) :
    ofChannel c processed = processed :=
  List.filter_eq_self.mpr fun p hp => decide_eq_true (h p hp)

theorem ofChannel_eq_nil {processed : List Processed} (h : ∀ p ∈ processed, p.channel ≠ c) :
    ofChannel c processed = [] :=
  List.filter_eq_nil_iff.mpr fun p hp hpc => h p hp (of_decide_eq_true hpc)

/-- A channel's rows are processed with the budget that is left when its turn comes. -/
theorem ofChannel_handledChannels {budget : Budget} {channels : List ChannelId}
    (hnodup : channels.Nodup) (hc : c ∈ channels) : ∃ budget',
      ofChannel c (handledChannels mode tick s₀ budget channels) =
        handledRows mode tick s₀ c budget' (s₀.queue c) := by
  induction channels generalizing budget with
  | nil => cases hc
  | cons d channels ih =>
    obtain ⟨hnotin, hnodup⟩ := List.nodup_cons.mp hnodup
    rw [handledChannels, ofChannel_append]
    by_cases hcd : c = d
    · subst hcd
      refine ⟨budget, ?_⟩
      rw [ofChannel_of_forall fun p hp => channel_of_mem_handledRows hp,
        ofChannel_eq_nil fun p hp hpc =>
          hnotin (by rw [← hpc]; exact (planned_handledChannels p hp).1),
        List.append_nil]
    · obtain ⟨budget', hrest⟩ := @ih (budget.spend (handledRows mode tick s₀ d budget (s₀.queue d)))
        hnodup ((List.mem_cons.mp hc).resolve_left hcd)
      refine ⟨budget', ?_⟩
      rw [ofChannel_eq_nil fun p hp hpc => hcd (hpc.symm.trans (channel_of_mem_handledRows hp)),
        List.nil_append, hrest]

/-! ## Budgets -/

/-- Every row was processed with something left of the budget. -/
def Spends : Budget → List Processed → Prop
  | _, [] => True
  | budget, p :: rest => ¬ budget.Exhausted ∧ Spends (budget.after p.handled) rest

theorem Spends.append {budget : Budget} {x y : List Processed} (hx : Spends budget x)
    (hy : Spends (budget.spend x) y) : Spends budget (x ++ y) := by
  induction x generalizing budget with
  | nil => exact hy
  | cons p x ih => exact ⟨hx.1, ih hx.2 hy⟩

theorem spends_handledRows (budget : Budget) (rows : List Candidate) :
    Spends budget (handledRows mode tick s₀ c budget rows) := by
  induction rows generalizing budget with
  | nil => exact trivial
  | cons candidate rows ih =>
    rw [handledRows_cons]
    split
    · exact trivial
    · rename_i hleft
      split
      · exact trivial
      · exact ⟨hleft, ih _⟩

theorem spends_handledChannels (budget : Budget) (channels : List ChannelId) :
    Spends budget (handledChannels mode tick s₀ budget channels) := by
  induction channels generalizing budget with
  | nil => exact trivial
  | cons c channels ih => exact (spends_handledRows budget _).append (ih _)

theorem Spends.length_le {budget : Budget} {processed : List Processed}
    (h : Spends budget processed) : processed.length ≤ budget.candidates := by
  induction processed generalizing budget with
  | nil => exact Nat.zero_le _
  | cons p processed ih =>
    have hrest := ih h.2
    have hleft : budget.candidates ≠ 0 := fun hzero => h.1 (.inl hzero)
    rw [Budget.after_candidates] at hrest
    rw [List.length_cons]
    omega

/-- The lengths of the removed bodies, in the order of their removal. -/
def removedLengths (processed : List Processed) : List Nat :=
  (processed.filter (·.handled.isRemoval)).map (·.handled.freed)

theorem removedLengths_cons (p : Processed) (processed : List Processed) :
    removedLengths (p :: processed) =
      if p.handled.isRemoval then p.handled.freed :: removedLengths processed
      else removedLengths processed := by
  rw [removedLengths, List.filter_cons]
  split <;> rfl

theorem freed_of_not_isRemoval {handled : Handled} (h : handled.isRemoval = false) :
    handled.freed = 0 := by
  cases handled with
  | requeued deadline => rfl
  | evicted outcome =>
    cases outcome with
    | removed len => cases h
    | stale => rfl

/-- The byte budget is overrun by the last removal only. -/
theorem Spends.sum_lt {budget : Budget} {processed : List Processed} (h : Spends budget processed)
    {earlier : List Nat} {last : Nat} (hlengths : removedLengths processed = earlier ++ [last]) :
    earlier.sum < budget.bytes := by
  induction processed generalizing budget earlier with
  | nil =>
    rw [removedLengths] at hlengths
    simp at hlengths
  | cons p processed ih =>
    have hpos : budget.bytes ≠ 0 := fun hzero => h.1 (.inr hzero)
    rw [removedLengths_cons] at hlengths
    cases hremoval : p.handled.isRemoval with
    | false =>
      rw [hremoval, if_neg Bool.false_ne_true] at hlengths
      have hrest := ih h.2 hlengths
      rw [Budget.after_bytes, freed_of_not_isRemoval hremoval] at hrest
      exact hrest
    | true =>
      rw [hremoval, if_pos rfl] at hlengths
      cases earlier with
      | nil => exact Nat.pos_of_ne_zero hpos
      | cons first earlier =>
        obtain ⟨hfirst, hrest⟩ := List.cons.inj hlengths
        have hlt := ih h.2 hrest
        rw [Budget.after_bytes, hfirst] at hlt
        rw [List.sum_cons]
        omega

/-! ## Each artifact once -/

def Processed.identity (p : Processed) : ChannelId × ArtifactId := (p.channel, p.candidate.artifact)

/-- No artifact is processed twice. -/
theorem nodup_handledChannels (hmatches : s₀.QueueMatches)
    (hkeys : RocksMetadata.RowKeys s₀.eviction) {budget : Budget} {channels : List ChannelId}
    (hnodup : channels.Nodup) :
    ((handledChannels mode tick s₀ budget channels).map Processed.identity).Nodup := by
  induction channels generalizing budget with
  | nil => exact List.nodup_nil
  | cons c channels ih =>
    obtain ⟨hnotin, hnodup⟩ := List.nodup_cons.mp hnodup
    have hartifacts : ((s₀.queue c).map (·.artifact)).Nodup :=
      distinct_queue hmatches hkeys c
    rw [handledChannels, List.map_append, List.nodup_append]
    refine ⟨?_, ih hnodup, ?_⟩
    · have hrows : List.Sublist _ ((s₀.queue c).map (·.artifact)) :=
        (@prefix_handledRows mode tick s₀ c budget (s₀.queue c)).sublist.map (·.artifact)
      have hdistinct := hartifacts.sublist hrows
      rw [List.map_map] at hdistinct
      refine List.pairwise_map.mpr ((List.pairwise_map.mp hdistinct).imp ?_)
      exact fun hne heq => hne (congrArg Prod.snd heq)
    · rintro _ hx _ hy rfl
      obtain ⟨p, hp, rfl⟩ := List.mem_map.mp hx
      obtain ⟨p', hp', heq⟩ := List.mem_map.mp hy
      refine hnotin ?_
      rw [← channel_of_mem_handledRows hp, ← show p'.channel = p.channel from congrArg Prod.fst heq]
      exact (planned_handledChannels p' hp').1

end Rows

/-! ## What the log does to the store -/

section Views

variable {store : RocksMetadata} {disk : FsDisk} {c : ChannelId} {a : ArtifactId}

theorem Processed.apply_row_of_ne {p : Processed} (hne : p.identity ≠ (c, a)) (store : RocksMetadata)
    (t : UInt64) : (p.apply store).row c a t = store.row c a t := by
  have hne' : ¬ (p.channel = c ∧ p.candidate.artifact = a) := fun h => hne (Prod.ext h.1 h.2)
  unfold Processed.apply
  cases p.handled with
  | requeued deadline =>
    dsimp only
    unfold RocksMetadata.requeue
    cases store.artifact p.channel p.candidate.artifact with
    | none => rfl
    | some m =>
      dsimp only
      split
      · rfl
      · rw [RocksMetadata.requeueBatch_row, if_neg fun h => hne' ⟨h.1, h.2.2⟩,
          if_neg fun h => hne' ⟨h.1, h.2.2⟩]
  | evicted outcome =>
    dsimp only
    rw [RocksMetadata.evict, RocksMetadata.evictBatch_row, if_neg fun h => hne' ⟨h.1, h.2.2⟩]

/-- Artifacts that were not processed keep their record and their rows. -/
theorem applyAll_of_not_mem {processed : List Processed}
    (h : (c, a) ∉ processed.map Processed.identity) :
    (applyAll processed store).artifact c a = store.artifact c a ∧
      ∀ t, (applyAll processed store).row c a t = store.row c a t := by
  induction processed generalizing store with
  | nil => exact ⟨rfl, fun _ => rfl⟩
  | cons p processed ih =>
    obtain ⟨hp, hrest⟩ := not_or.mp (fun hmem => h (List.mem_cons.mpr hmem))
    obtain ⟨hartifact, hrow⟩ := @ih (p.apply store) hrest
    have hne : p.identity ≠ (c, a) := fun heq => hp heq.symm
    refine ⟨hartifact.trans ?_, fun t => (hrow t).trans (p.apply_row_of_ne hne store t)⟩
    exact Processed.apply_artifact_of_ne (fun heq => hne (Prod.ext heq.1 heq.2)) store

/-- An artifact that was processed once is as its row left it. -/
theorem applyAll_of_mem {processed : List Processed}
    (hnodup : (processed.map Processed.identity).Nodup) {p : Processed} (hp : p ∈ processed) :
    ∃ x : RocksMetadata,
      x.artifact p.channel p.candidate.artifact = store.artifact p.channel p.candidate.artifact ∧
      (∀ t, x.row p.channel p.candidate.artifact t = store.row p.channel p.candidate.artifact t) ∧
      (applyAll processed store).artifact p.channel p.candidate.artifact =
        (p.apply x).artifact p.channel p.candidate.artifact ∧
      ∀ t, (applyAll processed store).row p.channel p.candidate.artifact t =
        (p.apply x).row p.channel p.candidate.artifact t := by
  induction processed generalizing store with
  | nil => cases hp
  | cons p' processed ih =>
    obtain ⟨hnotin, hnodup⟩ := List.nodup_cons.mp hnodup
    rcases List.mem_cons.mp hp with rfl | hp
    · obtain ⟨hartifact, hrow⟩ := @applyAll_of_not_mem (p.apply store) _ _ _ hnotin
      exact ⟨store, rfl, fun _ => rfl, hartifact, hrow⟩
    · have hne : p'.identity ≠ p.identity := fun heq =>
        hnotin (heq ▸ List.mem_map.mpr ⟨p, hp, rfl⟩)
      obtain ⟨x, hartifact, hrow, hfinal⟩ := @ih (p'.apply store) hnodup hp
      refine ⟨x, hartifact.trans ?_, fun t => (hrow t).trans (p'.apply_row_of_ne hne store t), hfinal⟩
      exact Processed.apply_artifact_of_ne (fun heq => hne (Prod.ext heq.1 heq.2)) store

theorem Processed.apply_families (p : Processed) (store : RocksMetadata) :
    (p.apply store).references = store.references ∧ (p.apply store).channels = store.channels := by
  unfold Processed.apply
  cases p.handled with
  | requeued deadline =>
    dsimp only
    unfold RocksMetadata.requeue
    split
    · exact ⟨rfl, rfl⟩
    · split <;> exact ⟨rfl, rfl⟩
  | evicted outcome =>
    dsimp only
    unfold RocksMetadata.evict RocksMetadata.evictBatch
    split
    · split <;> exact ⟨rfl, rfl⟩
    · exact ⟨rfl, rfl⟩

/-- No reference and no channel record is touched. -/
theorem applyAll_families (processed : List Processed) (store : RocksMetadata) :
    (applyAll processed store).references = store.references ∧
      (applyAll processed store).channels = store.channels := by
  induction processed generalizing store with
  | nil => exact ⟨rfl, rfl⟩
  | cons p processed ih =>
    obtain ⟨hreferences, hchannels⟩ := ih (p.apply store)
    obtain ⟨hp, hp'⟩ := p.apply_families store
    exact ⟨hreferences.trans hp, hchannels.trans hp'⟩

/-- A file is gone when its artifact was removed, and is otherwise left alone. -/
theorem applyAllDisk_without (processed : List Processed) (disk : FsDisk) :
    Without (fun q => ∃ p ∈ processed, p.handled.isRemoval = true ∧
      q = path p.channel p.candidate.artifact) disk (applyAllDisk processed disk) := by
  induction processed generalizing disk with
  | nil => exact (Without.refl disk).congr fun q => by simp
  | cons p processed ih =>
    have hrest := ih (p.applyDisk disk)
    cases hremoval : p.handled.isRemoval with
    | true =>
      have hfirst : p.applyDisk disk = disk.unlink (path p.channel p.candidate.artifact) := by
        rw [Processed.applyDisk, if_pos hremoval]
      rw [hfirst] at hrest
      show Without _ disk (applyAllDisk processed (p.applyDisk disk))
      rw [hfirst]
      exact ((Without.unlink disk _).trans hrest).congr fun q => by simp [hremoval]
    | false =>
      have hfirst : p.applyDisk disk = disk := by
        rw [Processed.applyDisk, hremoval, if_neg Bool.false_ne_true]
      rw [hfirst] at hrest
      show Without _ disk (applyAllDisk processed (p.applyDisk disk))
      rw [hfirst]
      exact hrest.congr fun q => by simp [hremoval]

end Views

/-! ## One pass -/

/-- The row was moved to `deadline`, together with its record; the body was left alone. -/
structure Requeued (s₀ s : RocksMetadata) (d₀ d : FsDisk) (p : Processed) (deadline : UInt64) :
    Prop where
  record : ∃ m, s₀.artifact p.channel p.candidate.artifact = some m ∧
    s.artifact p.channel p.candidate.artifact = some { m with eligibleAt := deadline }
  row : ∀ t, s.row p.channel p.candidate.artifact t = some () ↔ t = deadline
  body : d[path p.channel p.candidate.artifact]? = d₀[path p.channel p.candidate.artifact]?

/-- Record, row and body are gone. -/
structure Removed (s₀ s : RocksMetadata) (d : FsDisk) (p : Processed) : Prop where
  length : ∃ m, s₀.artifact p.channel p.candidate.artifact = some m ∧
    p.handled = .evicted (.removed m.storedLen)
  record : s.artifact p.channel p.candidate.artifact = none
  row : ∀ t, s.row p.channel p.candidate.artifact t = none
  body : d[path p.channel p.candidate.artifact]? = none

/-- What a pass in the given mode makes of store `s₀` and disk `d₀`. -/
structure Effect (mode : SpaceLedger.Mode) (tick : Tick) (limit reclaimByteLimit : Nat)
    (s₀ s : RocksMetadata) (d₀ d : FsDisk) (processed : List Processed) : Prop where
  prefixes : ∀ c rows, IsQueue s₀ c rows →
    (ofChannel c processed).map (·.candidate) <+: rows
  due : mode = .normal → ∀ p ∈ processed, p.candidate.eligibleAt ≤ tick.now
  requeued : mode = .normal → ∀ p ∈ processed,
    tick.seen p.channel p.candidate.artifact = true →
    ∃ record deadline, s₀.channel p.channel = some record ∧
      deadline.toNat = min (tick.now.toNat + record.expirySeconds.toNat) (2 ^ 64 - 1) ∧
      p.handled = .requeued deadline ∧ Requeued s₀ s d₀ d p deadline
  unseen : mode = .normal → ∀ p ∈ processed,
    tick.seen p.channel p.candidate.artifact = false → Removed s₀ s d p
  reclaimed : mode = .reclaiming → ∀ p ∈ processed, Removed s₀ s d p
  candidates : processed.length ≤ limit
  bytes : ∀ earlier last, removedLengths processed = earlier ++ [last] →
    earlier.sum < reclaimByteLimit
  others : ∀ c a, (c, a) ∉ processed.map Processed.identity →
    s.artifact c a = s₀.artifact c a ∧ ∀ t, s.row c a t = s₀.row c a t
  references : s.references = s₀.references
  channels : s.channels = s₀.channels
  files : ∀ q, (∀ p ∈ processed, q ≠ path p.channel p.candidate.artifact) → d[q]? = d₀[q]?

section Pass

variable {mode : SpaceLedger.Mode} {tick : Tick} {s₀ : RocksMetadata} {d₀ : FsDisk}
  {budget : Budget} {channels : List ChannelId}

theorem requeued_of_mem (h : Sound s₀ d₀) (hnodup : channels.Nodup) {p : Processed}
    (hp : p ∈ handledChannels mode tick s₀ budget channels) {deadline : UInt64}
    (hhandled : p.handled = .requeued deadline) :
    Requeued s₀ (applyAll (handledChannels mode tick s₀ budget channels) s₀) d₀
      (applyAllDisk (handledChannels mode tick s₀ budget channels) d₀) p deadline := by
  obtain ⟨hchannel, hplanned⟩ := planned_handledChannels p hp
  have hidentities := @nodup_handledChannels mode tick s₀ h.queue h.rows budget channels hnodup
  obtain ⟨m, hm, hdeadline⟩ := record_of_mem_queue h.queue h.rows hplanned.queued
  obtain ⟨x, hartifact, hrow, hfinal, hfinalRow⟩ := applyAll_of_mem hidentities hp
  have happly : p.apply x =
      x.requeueBatch p.channel p.candidate.artifact m p.candidate.eligibleAt deadline := by
    rw [Processed.apply, hhandled]
    dsimp only
    rw [RocksMetadata.requeue, hartifact, hm]
    dsimp only
    rw [if_neg (not_not_intro hdeadline)]
  constructor
  case record =>
    refine ⟨m, hm, ?_⟩
    rw [hfinal, happly, RocksMetadata.requeueBatch_artifact, if_pos ⟨rfl, rfl⟩]
  case row =>
    intro t
    rw [hfinalRow, happly, RocksMetadata.requeueBatch_row, hrow]
    by_cases ht : deadline = t
    · simp [ht]
    · have hnew : ¬ (p.channel = p.channel ∧ deadline = t ∧
          p.candidate.artifact = p.candidate.artifact) := fun heq => ht heq.2.1
      rw [if_neg hnew]
      refine ⟨fun hsome => ?_, fun heq => absurd heq.symm ht⟩
      -- the record had one row, the old one
      split at hsome
      · cases hsome
      · rename_i hold
        exact absurd ⟨rfl, hdeadline.symm.trans ((h.queue.row_of_artifact hm t).mp hsome), rfl⟩ hold
  case body =>
    refine (applyAllDisk_without _ d₀).same _ ?_
    rintro ⟨p', hp', hremoval, hpath⟩
    obtain ⟨hc, ha⟩ := path_inj.mp hpath
    have heq : p' = p := List.inj_on_of_nodup_map hidentities hp' hp
      (Prod.ext hc.symm ha.symm)
    rw [heq, hhandled] at hremoval
    cases hremoval

theorem removed_of_mem (h : Sound s₀ d₀) (hnodup : channels.Nodup) {p : Processed}
    (hp : p ∈ handledChannels mode tick s₀ budget channels)
    (hevicts : ¬ (mode = .normal ∧ tick.seen p.channel p.candidate.artifact = true)) :
    Removed s₀ (applyAll (handledChannels mode tick s₀ budget channels) s₀)
      (applyAllDisk (handledChannels mode tick s₀ budget channels) d₀) p := by
  obtain ⟨hchannel, hplanned⟩ := planned_handledChannels p hp
  have hidentities := @nodup_handledChannels mode tick s₀ h.queue h.rows budget channels hnodup
  obtain ⟨m, hm, hdeadline⟩ := record_of_mem_queue h.queue h.rows hplanned.queued
  obtain ⟨x, hartifact, hrow, hfinal, hfinalRow⟩ := applyAll_of_mem hidentities hp
  have hhandled : p.handled = .evicted (.removed m.storedLen) := by
    rw [hplanned.fate, fate, if_neg hevicts, hm]
    rfl
  have happly : p.apply x =
      (x.evictBatch p.channel p.candidate.artifact (some m) p.candidate.eligibleAt).1 := by
    rw [Processed.apply, hhandled]
    dsimp only
    rw [RocksMetadata.evict, hartifact, hm]
  constructor
  case length => exact ⟨m, hm, hhandled⟩
  case record =>
    rw [hfinal, happly, RocksMetadata.evictBatch_artifact, if_pos]
    exact ⟨congrArg some hdeadline, rfl, rfl⟩
  case row =>
    intro t
    rw [hfinalRow, happly, RocksMetadata.evictBatch_row, hrow]
    split
    · rfl
    · rename_i hold
      -- the record had one row, the evicted one
      cases hsome : s₀.row p.channel p.candidate.artifact t with
      | none => rfl
      | some u =>
        exact absurd ⟨rfl, hdeadline.symm.trans ((h.queue.row_of_artifact hm t).mp hsome), rfl⟩ hold
  case body =>
    refine (applyAllDisk_without _ d₀).none _ ⟨p, hp, ?_, rfl⟩
    rw [hhandled]
    rfl

theorem fate_seen (hmode : mode = .normal) {c : ChannelId} {candidate : Candidate}
    (hseen : tick.seen c candidate.artifact = true) :
    fate mode tick s₀ c candidate =
      .requeued (saturatingAdd tick.now ((s₀.channel c).elim 0 (·.expirySeconds))) := by
  rw [fate, if_pos ⟨hmode, hseen⟩]

/-- What the log of a pass does is the effect of a pass. -/
theorem effect_handledChannels (h : Sound s₀ d₀) (hnodup : channels.Nodup)
    (hactive : ∀ c ∈ channels, ∃ record, s₀.channel c = some record ∧ record.state = .active) :
    Effect mode tick budget.candidates budget.bytes s₀
      (applyAll (handledChannels mode tick s₀ budget channels) s₀) d₀
      (applyAllDisk (handledChannels mode tick s₀ budget channels) d₀)
      (handledChannels mode tick s₀ budget channels) := by
  have hspends := @spends_handledChannels mode tick s₀ budget channels
  constructor
  case prefixes =>
    intro c rows hrows
    obtain rfl := hrows.unique (RocksMetadata.isQueue_queue h.rows c)
    by_cases hc : c ∈ channels
    · obtain ⟨budget', hbudget'⟩ :=
        @ofChannel_handledChannels mode tick s₀ c budget channels hnodup hc
      rw [hbudget']
      exact prefix_handledRows budget' _
    · rw [ofChannel_eq_nil fun p hp hpc => hc (by rw [← hpc]; exact (planned_handledChannels p hp).1)]
      exact List.nil_prefix
  case due => exact fun hmode p hp => (planned_handledChannels p hp).2.due hmode
  case requeued =>
    intro hmode p hp hseen
    obtain ⟨hchannel, hplanned⟩ := planned_handledChannels p hp
    obtain ⟨record, hrecord, -⟩ := hactive p.channel hchannel
    have hhandled := hplanned.fate.trans (fate_seen hmode hseen)
    rw [hrecord] at hhandled
    exact ⟨record, saturatingAdd tick.now record.expirySeconds, hrecord, toNat_saturatingAdd _ _,
      hhandled, requeued_of_mem h hnodup hp hhandled⟩
  case unseen =>
    intro hmode p hp hseen
    refine removed_of_mem h hnodup hp ?_
    rw [hseen]
    exact fun hboth => Bool.false_ne_true hboth.2
  case reclaimed =>
    intro hmode p hp
    refine removed_of_mem h hnodup hp ?_
    rw [hmode]
    exact fun hboth => nomatch hboth.1
  case candidates => exact hspends.length_le
  case bytes => exact fun earlier last hlengths => hspends.sum_lt hlengths
  case others => exact fun c a hnot => applyAll_of_not_mem hnot
  case references => exact (applyAll_families _ _).1
  case channels => exact (applyAll_families _ _).2
  case files =>
    intro q hq
    refine (applyAllDisk_without _ d₀).same q ?_
    rintro ⟨p, hp, -, hpath⟩
    exact hq p hp hpath

/-- What a pass processes is the effect of a pass on the state it found. -/
theorem effect_handledPass {s : State} (h : Sound s.store s.disk) (policy : SpacePolicy)
    (reclaimByteLimit limit : Nat) :
    Effect (passMode policy tick.observation s.space) tick limit reclaimByteLimit s.store
      (applyAll (handledPass policy reclaimByteLimit tick limit s) s.store) s.disk
      (applyAllDisk (handledPass policy reclaimByteLimit tick limit s) s.disk)
      (handledPass policy reclaimByteLimit tick limit s) := by
  have heffect := @effect_handledChannels (passMode policy tick.observation s.space) tick s.store
    s.disk ⟨limit, reclaimByteLimit⟩ (visited s.store s.cursor) h (nodup_visited h.registry s.cursor)
  exact heffect fun c hc => (mem_activeChannels h.registry).mp ((mem_visited s.cursor).mp hc)

/-- **One maintenance pass** processes what `handledPass` says, in whichever mode the ledger is,
returns the number of rows it removed, and has the effect that `Effect` describes. -/
theorem pass_effect (policy : SpacePolicy) (reclaimByteLimit limit : Nat) (tick : Tick) (s : State)
    (h : Sound s.store s.disk) :
    ∃ processed s', processed = handledPass policy reclaimByteLimit tick limit s ∧
      runMaintenanceOnce policy reclaimByteLimit tick limit s =
        .ok (processed.filter (·.handled.isRemoval)).length s' ∧
      s' = State.after { s with
        space := (SpaceLedger.mode policy (SpaceLedger.refreshLocked tick.observation s.space)).2
        cursor := nextCursor s.store s.cursor } processed ∧
      s'.log = s.log ++ processed ∧
      Effect (passMode policy tick.observation s.space) tick limit reclaimByteLimit s.store s'.store s.disk
        s'.disk processed :=
  ⟨_, _, rfl, runMaintenanceOnce_after h policy reclaimByteLimit limit, rfl, rfl,
    effect_handledPass h policy reclaimByteLimit limit⟩

end Pass

/-! ### Shards with one channel and with two -/

def onlyChannel : ChannelRecord := ⟨.default, .open, 100, .active, 0⟩

def onlyArtifact : ArtifactId := ⟨⟨List.replicate 32 0, length_zeros⟩⟩

def onlyMetadata : ArtifactMetadata := ⟨1, none, 0, 5, 1, .identity⟩

/-- The one artifact of the one channel. -/
def onlyState : State where
  store := ((RocksMetadata.empty.storeChannel onlyChannel).commitPublication .default onlyArtifact
    onlyMetadata none).1
  disk := (∅ : FsDisk).insert (path .default onlyArtifact) ⟨.file [97] true, true⟩
  space := SpaceLedger.new
  cursor := 0
  log := []

/-- A publication keeps what a pass needs. -/
theorem Sound.publish {store : RocksMetadata} {disk : FsDisk} (h : Sound store disk)
    (c : ChannelId) (a : ArtifactId) (m : ArtifactMetadata) (body : Bytes) :
    Sound (store.commitPublication c a m none).1
      (disk.insert (path c a) ⟨.file body true, true⟩) := by
  constructor
  case queue => exact h.queue.commitPublication c a m none
  case rows => exact h.rows.apply (.commitPublication c a m none)
  case registry =>
    intro k record hk
    rw [RocksMetadata.commitPublication, RocksMetadata.commitBatch_channels] at hk
    exact h.registry k record hk
  case bodies =>
    intro c' a' hdir
    rw [Disk.kindAt, Disk.insert_apply] at hdir
    split at hdir
    · cases hdir
    · exact h.bodies c' a' hdir

/-- So does a new channel. -/
theorem Sound.storeChannel {store : RocksMetadata} {disk : FsDisk} (h : Sound store disk)
    (record : ChannelRecord) : Sound (store.storeChannel record) disk :=
  ⟨h.queue, h.rows, h.registry.storeChannel record, h.bodies⟩

theorem sound_empty : Sound RocksMetadata.empty ∅ := by
  constructor
  case queue =>
    intro c a t
    simp [RocksMetadata.row, RocksMetadata.artifact, RocksMetadata.empty]
  case rows =>
    intro k hk
    simp [RocksMetadata.empty] at hk
  case registry => exact RocksMetadata.Keyed.empty
  case bodies =>
    intro c a hdir
    simp [Disk.kindAt] at hdir

theorem sound_onlyState : Sound onlyState.store onlyState.disk :=
  (sound_empty.storeChannel onlyChannel).publish .default onlyArtifact onlyMetadata [97]

def busyChannel : ChannelRecord := ⟨⟨1⟩, .open, 100, .active, 0⟩

def busyArtifact : ArtifactId := ⟨⟨List.replicate 32 1, List.length_replicate⟩⟩

/-- The record of an artifact with a deadline. -/
def eligibleFrom (deadline : UInt64) : ArtifactMetadata :=
  { onlyMetadata with eligibleAt := deadline }

/-- Two channels with two artifacts each; the second channel is first in turn. -/
def busyState : State where
  store := ((((onlyState.store.storeChannel busyChannel).commitPublication .default busyArtifact
    (eligibleFrom 9) none).1.commitPublication ⟨1⟩ onlyArtifact
    (eligibleFrom 4) none).1.commitPublication ⟨1⟩ busyArtifact (eligibleFrom 6) none).1
  disk := ((onlyState.disk.insert (path .default busyArtifact) ⟨.file [98] true, true⟩).insert
    (path ⟨1⟩ onlyArtifact) ⟨.file [99] true, true⟩).insert
    (path ⟨1⟩ busyArtifact) ⟨.file [100] true, true⟩
  space := SpaceLedger.new
  cursor := 1
  log := []

theorem sound_busyState : Sound busyState.store busyState.disk :=
  (((sound_onlyState.storeChannel busyChannel).publish .default busyArtifact (eligibleFrom 9)
    [98]).publish ⟨1⟩ onlyArtifact (eligibleFrom 4) [99]).publish ⟨1⟩ busyArtifact
    (eligibleFrom 6) [100]

/-- At time 7 one artifact of the second channel was used recently. -/
def busyTick : Tick := ⟨some 100, 7, fun c a => c = ⟨1⟩ && a = busyArtifact⟩

/-- Three candidates: of the second channel one artifact is removed and one requeued, and the
default channel is left with what is not due. -/
theorem busyState_passed : ∃ processed s',
    processed.map Processed.identity =
      [(⟨1⟩, onlyArtifact), (⟨1⟩, busyArtifact), (.default, onlyArtifact)] ∧
    runMaintenanceOnce ⟨1, 2, 0⟩ 10 busyTick 3 busyState = .ok 2 s' ∧
    s'.log = busyState.log ++ processed ∧
    Effect .normal busyTick 3 10 busyState.store s'.store busyState.disk s'.disk processed := by
  obtain ⟨processed, s', hprocessed, hrun, -, hlog, heffect⟩ :=
    pass_effect ⟨1, 2, 0⟩ 10 3 busyTick busyState sound_busyState
  have hidentity : (handledPass ⟨1, 2, 0⟩ 10 busyTick 3 busyState).map Processed.identity =
      [(⟨1⟩, onlyArtifact), (⟨1⟩, busyArtifact), (.default, onlyArtifact)] := by decide +kernel
  have hremoved : ((handledPass ⟨1, 2, 0⟩ 10 busyTick 3 busyState).filter
      (·.handled.isRemoval)).length = 2 := by decide +kernel
  have hmode : passMode ⟨1, 2, 0⟩ busyTick.observation busyState.space = .normal := by
    decide +kernel
  rw [hmode] at heffect
  subst hprocessed
  rw [hremoved] at hrun
  exact ⟨_, s', hidentity, hrun, hlog, heffect⟩

/-! ## Repeated passes -/

/-- Consecutive passes in Reclaiming mode that return, with nothing in between. -/
inductive ReclaimingRun (policy : SpacePolicy) (reclaimByteLimit limit : Nat) :
    Nat → State → State → Prop where
  | refl (s : State) : ReclaimingRun policy reclaimByteLimit limit 0 s s
  | pass {k n : Nat} {tick : Tick} {s s' t : State}
      (hmode : passMode policy tick.observation s.space = .reclaiming)
      (hrun : runMaintenanceOnce policy reclaimByteLimit tick limit s = .ok n s')
      (hrest : ReclaimingRun policy reclaimByteLimit limit k s' t) :
      ReclaimingRun policy reclaimByteLimit limit (k + 1) s t

section Repeated

variable {policy : SpacePolicy} {reclaimByteLimit limit n k : Nat} {tick : Tick} {s s' t : State}
  {c : ChannelId}

/-- Rows that a pass processes are processed by operations of the store. -/
theorem Processed.apply_op (p : Processed) : ∃ op, ∀ store : RocksMetadata,
    p.apply store = store.apply op := by
  unfold Processed.apply
  cases p.handled with
  | requeued deadline =>
    exact ⟨.requeue p.channel p.candidate.artifact p.candidate.eligibleAt deadline, fun _ => rfl⟩
  | evicted outcome =>
    exact ⟨.evict p.channel p.candidate.artifact p.candidate.eligibleAt, fun _ => rfl⟩

theorem Sound.applyAll {store : RocksMetadata} {disk : FsDisk} (h : Sound store disk)
    (processed : List Processed) :
    Sound (applyAll processed store) (applyAllDisk processed disk) := by
  have hstore : ∀ (processed : List Processed) (store : RocksMetadata), store.QueueMatches →
      RocksMetadata.RowKeys store.eviction → (Maintenance.applyAll processed store).QueueMatches ∧
        RocksMetadata.RowKeys (Maintenance.applyAll processed store).eviction := by
    intro processed
    induction processed with
    | nil => exact fun _ hqueue hrows => ⟨hqueue, hrows⟩
    | cons p processed ih =>
      intro store hqueue hrows
      obtain ⟨op, hop⟩ := p.apply_op
      exact ih (p.apply store) (hop store ▸ hqueue.apply op) (hop store ▸ hrows.apply op)
  obtain ⟨hqueue, hrows⟩ := hstore processed store h.queue h.rows
  refine ⟨hqueue, hrows, ?_, h.bodies.applyAllDisk processed⟩
  intro key record hkey
  rw [(applyAll_families processed store).2] at hkey
  exact h.registry key record hkey

/-- The state after a pass that returned. -/
structure Passed (policy : SpacePolicy) (reclaimByteLimit limit : Nat) (tick : Tick)
    (s s' : State) (n : Nat) : Prop where
  sound : Sound s'.store s'.disk
  channels : s'.store.channels = s.store.channels
  cursor : s'.cursor = nextCursor s.store s.cursor
  store : s'.store = applyAll (handledPass policy reclaimByteLimit tick limit s) s.store
  count : n = removals (handledPass policy reclaimByteLimit tick limit s)
  effect : Effect (passMode policy tick.observation s.space) tick limit reclaimByteLimit s.store s'.store s.disk
    s'.disk (handledPass policy reclaimByteLimit tick limit s)

theorem passed_of_run (h : Sound s.store s.disk)
    (hrun : runMaintenanceOnce policy reclaimByteLimit tick limit s = .ok n s') :
    Passed policy reclaimByteLimit limit tick s s' n := by
  obtain ⟨s'', hrun', hstore, hdisk, hcursor, -⟩ :=
    runMaintenanceOnce_eq h policy reclaimByteLimit limit
  obtain ⟨rfl, rfl⟩ := EStateM.Result.ok.inj (hrun.symm.trans hrun')
  have heffect : Effect (passMode policy tick.observation s.space) tick limit reclaimByteLimit s.store
      s'.store s.disk s'.disk (handledPass policy reclaimByteLimit tick limit s) := by
    rw [hstore, hdisk]
    exact effect_handledPass h policy reclaimByteLimit limit
  exact ⟨by rw [hstore, hdisk]; exact h.applyAll _, heffect.channels, hcursor, hstore, rfl, heffect⟩

theorem activeChannels_congr {x y : RocksMetadata} (h : x.channels = y.channels) :
    activeChannels x = activeChannels y := by
  rw [activeChannels, activeChannels, RocksMetadata.channelRecords, RocksMetadata.channelRecords, h]

namespace Passed

/-- In Reclaiming mode no row comes back. -/
theorem row_none (h : Passed policy reclaimByteLimit limit tick s s' n)
    (hmode : passMode policy tick.observation s.space = .reclaiming) {a : ArtifactId} {u : UInt64}
    (hnone : s.store.row c a u = none) : s'.store.row c a u = none := by
  by_cases hmem : (c, a) ∈ (handledPass policy reclaimByteLimit tick limit s).map Processed.identity
  · obtain ⟨p, hp, hidentity⟩ := List.mem_map.mp hmem
    obtain ⟨rfl, rfl⟩ := Prod.mk.inj hidentity
    exact (h.effect.reclaimed hmode p hp).row u
  · rw [(h.effect.others c a hmem).2 u, hnone]

/-- The oldest row of a channel goes, or the pass did not get to the channel. -/
theorem oldest (h : Passed policy reclaimByteLimit limit tick s s' n)
    (hmode : passMode policy tick.observation s.space = .reclaiming) {q : Candidate} {rest : List Candidate}
    (hqueue : IsQueue s.store c (q :: rest)) :
    s'.store.row c q.artifact q.eligibleAt = none ∨ IsQueue s'.store c (q :: rest) := by
  by_cases hnone : ofChannel c (handledPass policy reclaimByteLimit tick limit s) = []
  · refine .inr ?_
    have hsame : SameChannel c s'.store s.store := by
      rw [h.store]
      refine sameChannel_applyAll fun p hp hpc => ?_
      exact absurd (List.mem_filter.mpr ⟨hp, decide_eq_true hpc⟩) (by
        rw [ofChannel] at hnone
        rw [hnone]
        exact List.not_mem_nil)
    refine ⟨fun candidate => (hqueue.mem candidate).trans ?_, hqueue.ordered⟩
    have hrow : s'.store.row c candidate.artifact candidate.eligibleAt =
        s.store.row c candidate.artifact candidate.eligibleAt :=
      hsame.eviction _ (List.prefix_append ..)
    rw [hrow]
  · obtain ⟨p, ps, hcons⟩ := List.exists_cons_of_ne_nil hnone
    have hpre := h.effect.prefixes c (q :: rest) hqueue
    rw [hcons, List.map_cons, List.cons_prefix_cons] at hpre
    have hfirst : p ∈ ofChannel c (handledPass policy reclaimByteLimit tick limit s) := by
      rw [hcons]
      exact List.mem_cons_self
    obtain ⟨hin, hchannel⟩ := List.mem_filter.mp hfirst
    have hrow := (h.effect.reclaimed hmode p hin).row p.candidate.eligibleAt
    rw [hpre.1, of_decide_eq_true hchannel] at hrow
    exact .inl hrow

end Passed

/-- With something to spend, the first channel of a pass loses its oldest row. -/
theorem first_processed (hmode : passMode policy tick.observation s.space = .reclaiming) (hlimit : 0 < limit)
    (hbytes : 0 < reclaimByteLimit) {channels : List ChannelId}
    (hfirst : visited s.store s.cursor = c :: channels) {q : Candidate} {rest : List Candidate}
    (hqueue : s.store.queue c = q :: rest) : ∃ processed,
      handledPass policy reclaimByteLimit tick limit s =
        ⟨c, q, fate .reclaiming tick s.store c q⟩ :: processed := by
  have hbudget : ¬ (Budget.mk limit reclaimByteLimit).Exhausted := by
    rintro (hzero | hzero)
    · exact absurd hzero (Nat.ne_of_gt hlimit)
    · exact absurd hzero (Nat.ne_of_gt hbytes)
  rw [handledPass, hfirst, handledChannels, hqueue, handledRows_cons, if_neg hbudget, hmode,
    if_neg (by rintro ⟨⟨⟩, -⟩)]
  exact ⟨_, rfl⟩

theorem ReclaimingRun.row_none {u : UInt64} {a : ArtifactId}
    (hrun : ReclaimingRun policy reclaimByteLimit limit k s t) (h : Sound s.store s.disk)
    (hnone : s.store.row c a u = none) : t.store.row c a u = none := by
  induction hrun with
  | refl s => exact hnone
  | pass hmode hpass hrest ih =>
    have hpassed := passed_of_run h hpass
    exact ih hpassed.sound (hpassed.row_none hmode hnone)

theorem visited_eq_cons {i : Nat} (hi : (activeChannels s.store)[i]? = some c)
    (hcursor : s.cursor.toNat % (activeChannels s.store).length = i) :
    ∃ channels, visited s.store s.cursor = c :: channels := by
  obtain ⟨hlt, -⟩ := List.getElem?_eq_some_iff.mp hi
  refine List.head?_eq_some_iff.mp ?_
  rw [visited, hcursor, List.head?_rotate hlt, hi]

/-- The pass whose turn it is for a channel takes the channel's oldest row, if it is still there. -/
theorem ReclaimingRun.oldest (hrun : ReclaimingRun policy reclaimByteLimit limit k s t)
    (h : Sound s.store s.disk) (hlimit : 0 < limit) (hbytes : 0 < reclaimByteLimit) {i : Nat}
    (hi : (activeChannels s.store)[i]? = some c) {q : Candidate} {rest : List Candidate}
    (hqueue : IsQueue s.store c (q :: rest)) {j : Nat} (hj : j < k)
    (hturn : (s.cursor + UInt64.ofNat j).toNat % (activeChannels s.store).length = i) :
    t.store.row c q.artifact q.eligibleAt = none := by
  induction hrun generalizing j with
  | refl s => cases hj
  | @pass k n tick s s' t hmode hpass hrest ih =>
    have hpassed := passed_of_run h hpass
    cases j with
    | zero =>
      have hcursor : s.cursor.toNat % (activeChannels s.store).length = i := by
        rw [← hturn]
        simp
      obtain ⟨channels, hfirst⟩ := visited_eq_cons hi hcursor
      obtain ⟨processed, hprocessed⟩ := first_processed hmode hlimit hbytes hfirst
        ((RocksMetadata.isQueue_queue h.rows c).unique hqueue)
      have hmem : ⟨c, q, fate .reclaiming tick s.store c q⟩ ∈
          handledPass policy reclaimByteLimit tick limit s := by
        rw [hprocessed]
        exact List.mem_cons_self
      have hgone := (hpassed.effect.reclaimed hmode _ hmem).row q.eligibleAt
      exact hrest.row_none hpassed.sound hgone
    | succ j =>
      rcases hpassed.oldest hmode hqueue with hgone | hqueue'
      · exact hrest.row_none hpassed.sound hgone
      · have hactive := activeChannels_congr hpassed.channels
        have hcursor : s'.cursor = s.cursor + 1 := by
          rw [hpassed.cursor, nextCursor, if_neg]
          rw [List.isEmpty_iff]
          intro hnil
          rw [hnil] at hi
          cases hi
        refine ih hpassed.sound (by rw [hactive, hi]) hqueue' (Nat.lt_of_succ_lt_succ hj) ?_
        rw [hactive, ← hturn, hcursor]
        have hsucc : s.cursor + 1 + UInt64.ofNat j = s.cursor + UInt64.ofNat (j + 1) := by
          rw [UInt64.add_assoc, UInt64.add_comm 1, UInt64.ofNat_add]
          rfl
        rw [hsucc]

/-- While the cursor does not wrap, or if it wraps at a multiple of the number of channels,
consecutive passes start with consecutive channels. -/
theorem turn_of_cursor {cursor : UInt64} (hcursor : cursor.toNat + k ≤ 2 ^ 64 ∨ k ∣ 2 ^ 64) {i : Nat}
    (hi : i < k) : ∃ j < k, (cursor + UInt64.ofNat j).toNat % k = i := by
  have hk : 0 < k := Nat.lt_of_le_of_lt (Nat.zero_le i) hi
  have hj : (i + (k - cursor.toNat % k)) % k < k := Nat.mod_lt _ hk
  have hturn : (cursor.toNat + (i + (k - cursor.toNat % k)) % k) % k = i := by
    have hmod : cursor.toNat % k < k := Nat.mod_lt _ hk
    have hdiv := Nat.div_add_mod cursor.toNat k
    have hsum : cursor.toNat + (i + (k - cursor.toNat % k)) = i + k * (cursor.toNat / k + 1) := by
      rw [Nat.mul_succ]
      omega
    rw [Nat.add_mod_mod, hsum, Nat.add_mul_mod_self_left, Nat.mod_eq_of_lt hi]
  refine ⟨_, hj, ?_⟩
  rcases hcursor with hwrap | hdvd
  · have hnat : ∀ j, j < k → (cursor + UInt64.ofNat j).toNat = cursor.toNat + j := by
      intro j hj
      rw [UInt64.toNat_add, UInt64.toNat_ofNat', Nat.mod_eq_of_lt (by omega : j < 2 ^ 64),
        Nat.mod_eq_of_lt (by omega)]
    rw [hnat _ hj, hturn]
  · have hle : k ≤ 2 ^ 64 := Nat.le_of_dvd (by decide) hdvd
    rw [UInt64.toNat_add, Nat.mod_mod_of_dvd _ hdvd, UInt64.toNat_ofNat',
      Nat.mod_eq_of_lt (Nat.lt_of_lt_of_le hj hle), hturn]

theorem handledPass_of_no_bytes (policy : SpacePolicy) (tick : Tick) (limit : Nat) (s : State) :
    handledPass policy 0 tick limit s = [] :=
  handledChannels_exhausted (.inr rfl) _

/-- Without a byte to spend nothing is removed. -/
theorem ReclaimingRun.no_bytes (hrun : ReclaimingRun policy 0 limit k s t)
    (h : Sound s.store s.disk) : t.store = s.store := by
  induction hrun with
  | refl s => rfl
  | pass hmode hpass hrest ih =>
    have hpassed := passed_of_run h hpass
    have hstore := hpassed.store
    rw [handledPass_of_no_bytes] at hstore
    exact (ih hpassed.sound).trans hstore

/-- Every active channel with a queued artifact loses its oldest row, and a pass that starts with
such a channel removes something. -/
structure Progresses (policy : SpacePolicy) (reclaimByteLimit limit : Nat) (s t : State) : Prop where
  oldest : ∀ c ∈ activeChannels s.store, ∀ q rest, IsQueue s.store c (q :: rest) →
    t.store.row c q.artifact q.eligibleAt = none
  first : ∀ c channels, visited s.store s.cursor = c :: channels →
    ∀ q rest, IsQueue s.store c (q :: rest) → ∀ tick n s',
      passMode policy tick.observation s.space = .reclaiming →
      runMaintenanceOnce policy reclaimByteLimit tick limit s = .ok n s' → 0 < n

end Repeated

/-- **Reclamation makes progress** with a positive byte limit, as long as the cursor does not wrap
in the middle of a round, and with no other byte limit unless nothing is queued.
`Config::validate` lets a byte limit of zero through. -/
theorem reclamation_progresses (parse : String → Except String Config.UrlShape) (config : Config)
    (hvalid : config.validate parse = .ok ()) (policy : SpacePolicy) {s t : State}
    (h : Sound s.store s.disk)
    (hrun : ReclaimingRun policy config.reclaimByteLimit.toNat config.reclaimCandidateLimit
      (activeChannels s.store).length s t) :
    (0 < config.reclaimByteLimit →
      s.cursor.toNat + (activeChannels s.store).length ≤ 2 ^ 64 ∨
        (activeChannels s.store).length ∣ 2 ^ 64 →
      Progresses policy config.reclaimByteLimit.toNat config.reclaimCandidateLimit s t) ∧
    (Progresses policy config.reclaimByteLimit.toNat config.reclaimCandidateLimit s t →
      0 < config.reclaimByteLimit ∨
        ∀ c ∈ activeChannels s.store, ∀ q rest, ¬ IsQueue s.store c (q :: rest)) := by
  have hlimit := (Config.maintenance_pos parse hvalid).2
  constructor
  · intro hbytes hcursor
    have hpos : 0 < config.reclaimByteLimit.toNat := UInt64.lt_iff_toNat_lt.mp hbytes
    constructor
    case oldest =>
      intro c hc q rest hqueue
      obtain ⟨i, hi⟩ := List.mem_iff_getElem?.mp hc
      obtain ⟨hlt, -⟩ := List.getElem?_eq_some_iff.mp hi
      obtain ⟨j, hj, hturn⟩ := turn_of_cursor hcursor hlt
      exact hrun.oldest h hlimit hpos hi hqueue hj hturn
    case first =>
      intro c channels hfirst q rest hqueue tick n s' hmode hpass
      obtain ⟨processed, hprocessed⟩ := first_processed hmode hlimit hpos hfirst
        ((RocksMetadata.isQueue_queue h.rows c).unique hqueue)
      rw [(passed_of_run h hpass).count, hprocessed, removals, List.filter_cons_of_pos]
      · exact Nat.succ_pos _
      · rw [fate, if_neg (by rintro ⟨⟨⟩, -⟩)]
        rfl
  · intro hprogress
    by_cases hbytes : 0 < config.reclaimByteLimit
    · exact .inl hbytes
    · refine .inr fun c hc q rest hqueue => ?_
      have hzero : config.reclaimByteLimit.toNat = 0 := by
        rw [UInt64.lt_iff_toNat_lt] at hbytes
        exact Nat.eq_zero_of_not_pos hbytes
      rw [hzero] at hrun
      have hgone := hprogress.oldest c hc q rest hqueue
      rw [hrun.no_bytes h, (hqueue.mem q).mp List.mem_cons_self] at hgone
      cases hgone

theorem activeChannels_onlyState : activeChannels onlyState.store = [.default] := by
  decide +kernel

theorem onlyState_run (reclaimByteLimit : Nat) :
    ∃ t, ReclaimingRun ⟨1, 2, 0⟩ reclaimByteLimit 256 (activeChannels onlyState.store).length
      onlyState t := by
  obtain ⟨s', hrun, -⟩ := @runMaintenanceOnce_eq ⟨none, 7, fun _ _ => false⟩ onlyState
    sound_onlyState ⟨1, 2, 0⟩ reclaimByteLimit 256
  rw [activeChannels_onlyState]
  exact ⟨s', .pass (by decide) hrun (.refl s')⟩

theorem isQueue_onlyState : IsQueue onlyState.store .default [⟨5, onlyArtifact⟩] := by
  have hrow : ∀ a t, onlyState.store.row .default a t = some () ↔ 5 = t ∧ onlyArtifact = a := by
    intro a t
    have hempty : (RocksMetadata.empty.storeChannel onlyChannel).artifact .default onlyArtifact =
        none := by simp [RocksMetadata.artifact, RocksMetadata.storeChannel, RocksMetadata.empty]
    have hnone : (RocksMetadata.empty.storeChannel onlyChannel).row .default a t = none := by
      simp [RocksMetadata.row, RocksMetadata.storeChannel, RocksMetadata.empty]
    rw [onlyState, RocksMetadata.commitPublication, hempty, RocksMetadata.commitBatch_row, hnone]
    simp [onlyMetadata]
  refine ⟨fun candidate => ?_, List.pairwise_singleton _ _⟩
  obtain ⟨t, a⟩ := candidate
  rw [List.mem_singleton, hrow]
  constructor
  · rintro heq
    cases heq
    exact ⟨rfl, rfl⟩
  · rintro ⟨rfl, rfl⟩
    rfl

theorem activeChannels_busyState : activeChannels busyState.store = [.default, ⟨1⟩] := by
  decide +kernel

/-- One candidate each pass, and no observation of the free space. -/
theorem busyState_run (reclaimByteLimit : Nat) :
    ∃ t, ReclaimingRun ⟨1, 2, 0⟩ reclaimByteLimit 1 (activeChannels busyState.store).length
      busyState t := by
  have hrun := @runMaintenanceOnce_after ⟨none, 7, fun _ _ => false⟩ busyState sound_busyState
    ⟨1, 2, 0⟩ reclaimByteLimit 1
  obtain ⟨t, hrun', -⟩ := @runMaintenanceOnce_eq ⟨none, 7, fun _ _ => false⟩ _
    (passed_of_run sound_busyState hrun).sound ⟨1, 2, 0⟩ reclaimByteLimit 1
  -- the ledger after the first pass
  have hmode : passMode ⟨1, 2, 0⟩ none (SpaceLedger.mode ⟨1, 2, 0⟩
      (SpaceLedger.refreshLocked none SpaceLedger.new)).2 = .reclaiming := by decide
  rw [activeChannels_busyState]
  exact ⟨t, .pass (by decide) hrun (.pass hmode hrun' (.refl t))⟩

/-- In two passes of one candidate each, both channels lose their oldest row. -/
theorem busyState_progresses : ∃ t,
    ReclaimingRun ⟨1, 2, 0⟩ (sampleConfig 604800).reclaimByteLimit.toNat 1
      (activeChannels busyState.store).length busyState t ∧
    Progresses ⟨1, 2, 0⟩ (sampleConfig 604800).reclaimByteLimit.toNat 1 busyState t := by
  obtain ⟨t, hrun⟩ := busyState_run (sampleConfig 604800).reclaimByteLimit.toNat
  have hvalid : { sampleConfig 604800 with reclaimCandidateLimit := 1 }.validate sampleParse =
      .ok () := by decide
  exact ⟨t, hrun, (reclamation_progresses sampleParse
    { sampleConfig 604800 with reclaimCandidateLimit := 1 } hvalid ⟨1, 2, 0⟩ sound_busyState
    hrun).1 (by decide) (by rw [activeChannels_busyState]; decide)⟩

/-- With a byte limit of zero, which the configuration check accepts, it stays. -/
theorem zero_byte_limit_stalls :
    ({ sampleConfig 604800 with reclaimByteLimit := 0 }.validate sampleParse = .ok ()) ∧
    Sound onlyState.store onlyState.disk ∧
    ∃ t, ReclaimingRun ⟨1, 2, 0⟩ 0 256 (activeChannels onlyState.store).length onlyState t ∧
      .default ∈ activeChannels onlyState.store ∧
      IsQueue onlyState.store .default [⟨5, onlyArtifact⟩] ∧
      t.store.row .default onlyArtifact 5 = some () := by
  obtain ⟨t, hrun⟩ := onlyState_run 0
  have hrow := (isQueue_onlyState.mem ⟨5, onlyArtifact⟩).mp List.mem_cons_self
  refine ⟨by decide, sound_onlyState, t, hrun, ?_, isQueue_onlyState, ?_⟩
  · rw [activeChannels_onlyState]
    exact List.mem_cons_self
  · rw [hrun.no_bytes sound_onlyState]
    exact hrow

end Maintenance

end Flywheel
