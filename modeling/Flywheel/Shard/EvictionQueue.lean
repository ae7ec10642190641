import Flywheel.Shard.Durability
import Flywheel.Shard.Lifecycle
import Flywheel.Storage.Queue

/-!
# The eviction queue under interleaving

`Storage/Queue.lean` applies each store operation at once. In the shard an operation reads
a record in one step and writes its batch in a later one, and a deletion of the channel,
which takes no stripe, may clear the record in between. What a task has read can be out of
date in this one way (`Reading`), and no batch of any operation then parts the queue from
the records (`QueueMatches.commitBatch`, … below). So queue and records are in bijection in
every state of every run, and in every state a loss of power may fall back to
(`shard_queue_bijection`).
-/

set_option autoImplicit false

namespace Flywheel

open Lib

/-! ## Batches of operations that read earlier -/

namespace RocksMetadata

variable {s : RocksMetadata} {c : ChannelId} {a : ArtifactId}

/-- The queue agrees with the records, and has no other keys. -/
structure Mirrored (s : RocksMetadata) : Prop where
  queue : s.QueueMatches
  keys : RowKeys s.eviction

theorem Mirrored.empty : Mirrored RocksMetadata.empty := by
  obtain ⟨hqueue, hkeys⟩ := queue_after []
  exact ⟨hqueue, hkeys⟩

/-- Batches on the other two families say nothing about the queue. -/
theorem Mirrored.of_same {s' : RocksMetadata} (h : s.Mirrored) (hart : s'.artifacts = s.artifacts)
    (hev : s'.eviction = s.eviction) : s'.Mirrored := by
  refine ⟨fun c a t => ?_, ?_⟩
  · rw [row, hev, artifact, hart]
    exact h.queue c a t
  · rw [hev]
    exact h.keys

/-- A publication that creates a record finds none when it writes. -/
theorem Mirrored.commitBatch (h : s.Mirrored) {found : Bool}
    (hfound : found = false → s.artifact c a = none) (m : ArtifactMetadata)
    (r : Option (Bytes × ReferenceRecord)) : (s.commitBatch c a found m r).Mirrored := by
  cases found with
  | true =>
    refine h.of_same ?_ ?_ <;> rcases r with _ | ⟨n, r⟩ <;> rfl
  | false =>
    have hnone := hfound rfl
    refine ⟨h.queue.of_local (c := c) (a := a) (fun c' a' hne => ⟨?_, fun t => ?_⟩) fun t => ?_, ?_⟩
    · rw [commitBatch_artifact, if_neg fun hc => hne hc.2]
    · rw [commitBatch_row, if_neg fun hc => hne ⟨hc.2.1, hc.2.2.2⟩]
    · simp [h.queue.row_none hnone]
    · rcases r with _ | ⟨n, r⟩ <;> exact h.keys.put c m.eligibleAt a

/-- A removal takes the row of the record it read. -/
theorem Mirrored.removeBatch (h : s.Mirrored) {found : Option ArtifactMetadata}
    (hfound : s.artifact c a = found ∨ s.artifact c a = none) :
    (s.removeBatch c a found).Mirrored := by
  refine ⟨h.queue.of_local (c := c) (a := a) (fun c' a' hne => ⟨?_, fun t => ?_⟩) fun t => ?_, ?_⟩
  · rw [removeBatch_artifact, if_neg hne]
  · rw [removeBatch_row, if_neg fun hc => hne ⟨hc.1, hc.2.2⟩]
  · rcases hfound with rfl | hnone
    · cases hm : s.artifact c a with
      | none => simp [h.queue.row_none hm]
      | some m => simp [h.queue.row_of_artifact hm]
    · simp [h.queue.row_none hnone]
  · cases found with
    | none => exact h.keys
    | some m => exact h.keys.delete _

/-- A requeue writes the record it read back, with the row of its new deadline; it may
bring back a record that is gone, but then with its row. -/
theorem Mirrored.requeueBatch (h : s.Mirrored) {m : ArtifactMetadata} {old new : UInt64}
    (hm : s.artifact c a = some m ∨ s.artifact c a = none) (hold : m.eligibleAt = old) :
    (s.requeueBatch c a m old new).Mirrored := by
  have hrow : ∀ t, old ≠ t → s.row c a t = none := by
    intro t hne
    rcases hm with hm | hnone
    · cases hr : s.row c a t with
      | none => rfl
      | some u => exact absurd (hold.symm.trans ((h.queue.row_of_artifact hm t).mp hr)) hne
    · exact h.queue.row_none hnone t
  refine ⟨h.queue.of_local (c := c) (a := a) (fun c' a' hne => ⟨?_, fun t => ?_⟩) fun t => ?_,
    (h.keys.delete _).put c new a⟩
  · rw [requeueBatch_artifact, if_neg hne]
  · rw [requeueBatch_row, if_neg fun hc => hne ⟨hc.1, hc.2.2⟩,
      if_neg fun hc => hne ⟨hc.1, hc.2.2⟩]
  · -- `old` may equal `new`: the batch deletes before it puts
    by_cases hnew : new = t
    · simp [hnew]
    · by_cases hot : old = t
      · simp [hnew, hot]
      · simp [hnew, hot, hrow t hot]

/-- An eviction takes the candidate's row, and the record if it still has that deadline. -/
theorem Mirrored.evictBatch (h : s.Mirrored) {found : Option ArtifactMetadata}
    (hfound : s.artifact c a = found ∨ s.artifact c a = none) (t₀ : UInt64) :
    (s.evictBatch c a found t₀).1.Mirrored := by
  refine ⟨h.queue.of_local (c := c) (a := a) (fun c' a' hne => ⟨?_, fun t => ?_⟩) fun t => ?_, ?_⟩
  · rw [evictBatch_artifact, if_neg fun hc => hne hc.2]
  · rw [evictBatch_row, if_neg fun hc => hne ⟨hc.1, hc.2.2⟩]
  · rcases hfound with rfl | hnone
    · cases hm : s.artifact c a with
      | none => simp [hm, h.queue.row_none hm]
      | some m =>
        by_cases ht : m.eligibleAt = t₀
        · simp [h.queue.row_of_artifact hm, ht]
        · -- the candidate is stale: its row is not the record's
          simp [hm, h.queue.row_of_artifact hm, ht]
          rintro rfl rfl
          exact ht rfl
    · simp [hnone, h.queue.row_none hnone]
  · have hkeys : RowKeys (s.eviction.delete (evictionKey c t₀ a)) := h.keys.delete _
    simp only [RocksMetadata.evictBatch]
    split
    · split <;> exact hkeys
    · exact hkeys

theorem Mirrored.deleteChannelData (h : s.Mirrored) (c : ChannelId) :
    (s.deleteChannelData c).Mirrored :=
  ⟨h.queue.deleteChannelData c, h.keys.deleteRange _ _⟩

end RocksMetadata

/-! ## What a task has read -/

/-- The record of the artifact whose stripe a task holds, as far as its next batch relies
on it: as the task read it, or cleared since by a deletion of the channel. -/
def Reading (record : Option ArtifactMetadata) : Task → Prop
  | .publish _ (.commitWrite _ found) => found = false → record = none
  | .locate _ _ (.removeWrite found) => record = found ∨ record = none
  | .maintain _ candidate _ (.requeueWrite m) =>
    (record = some m ∨ record = none) ∧ m.eligibleAt = candidate.eligibleAt
  | .maintain _ _ _ (.evictWrite found) => record = found ∨ record = none
  | _ => True

/-- A deletion that clears the record leaves every task right about it. -/
theorem Reading.cleared {record : Option ArtifactMetadata} {t : Task} (h : Reading record t) :
    Reading none t := by
  cases t with
  | publish r pc =>
    cases pc with
    | commitWrite f found => exact fun _ => rfl
    | _ => trivial
  | locate c a pc =>
    cases pc with
    | removeWrite found => exact .inr rfl
    | _ => trivial
  | maintain c candidate decision pc =>
    cases pc with
    | requeueWrite m => exact ⟨.inr rfl, h.2⟩
    | evictWrite found => exact .inr rfl
    | _ => trivial
  | _ => trivial

theorem reading_lost (record : Option ArtifactMetadata) (t : Task) : Reading record t.lost := by
  cases t <;> trivial

variable {ι : Type} [DecidableEq ι] {E : Env ι} {i : ι} {e : Event} {s s' : Shared ι}
variable {t t' : Task} {p p' : Shard ι}

/-- The task that steps has just read the record it is to write. -/
theorem reading_local (h : Task.step E i e s t = some (s', t')) :
    Reading (t'.view E s' i).record t' := by
  have hfrom := step_from h
  cases t' with
  | publish r pc' =>
    cases pc' with
    | commitWrite f found =>
      obtain ⟨-, -, hpc⟩ | ⟨pc, -, -, rfl, rfl⟩ := hfrom
      · cases hpc
      · intro hfound
        show s'.record r.channel (r.artifact E) = none
        simpa using hfound
    | _ => trivial
  | locate c a pc' =>
    cases pc' with
    | removeWrite found =>
      obtain ⟨-, -, hpc⟩ | ⟨pc, -, -, rfl, rfl⟩ := hfrom
      · cases hpc
      · exact .inl rfl
    | _ => trivial
  | maintain c candidate decision pc' =>
    cases pc' with
    | requeueWrite m =>
      obtain ⟨-, -, hpc⟩ | ⟨pc, -, -, rfl, hm, hold⟩ := hfrom
      · cases hpc
      · exact ⟨.inl hm, hold⟩
    | evictWrite found =>
      obtain ⟨-, -, hpc⟩ | ⟨pc, -, -, rfl, rfl⟩ := hfrom
      · cases hpc
      · exact .inl rfl
    | _ => trivial
  | _ => trivial

/-- Another thread's step can only clear the record of an artifact whose stripe is held. -/
theorem record_of_other (hlocked : Locked E p) (hfire : p.fire E i e = some p') {j : ι}
    (hne : j ≠ i) :
    ((p.task j).view E p'.shared j).record = ((p.task j).view E p.shared j).record ∨
      ((p.task j).view E p'.shared j).record = none := by
  have hmove := step_move (Shard.fire_eq_some hfire).1
  simp only [Task.view]
  cases hown : (p.task j).owns E with
  | none => exact .inl rfl
  | some k =>
    -- whoever else writes the record holds the stripe that thread `j` holds
    have hfree : (p.task i).stripe E ≠ some (E.stripe k.1 k.2) := fun hi =>
      hne (hlocked.eq_of_stripe (by rw [Task.stripe, hown]; rfl) hi)
    cases hmove.record_change k.1 k.2 with
    | keep h => exact .inl h
    | created now ht hc ha | requeued ht ha | healed ht | evicted ht ha =>
      refine absurd ?_ hfree
      rw [ht, Task.stripe]
      simp_all [Task.owns]
    | deleted ht h => exact .inr h

/-- In every state of every run each task is right about the record it is to write. -/
theorem reading_of_reach {G : Shard ι → Action ι → Prop} (h : (shard E).Reach G p) :
    ∀ j, Reading ((p.task j).view E p.shared j).record (p.task j) := by
  refine h.invariant_of_reach
    (I := fun p => ∀ j, Reading ((p.task j).view E p.shared j).record (p.task j)) ?_ ?_
  · rintro _ ⟨expirySeconds, now, rfl⟩ j
    trivial
  · intro x a y hx hreading _ hstep
    cases a with
    | thread i e =>
      refine Pool.fire_inv (J := fun s j t => Reading (t.view E s j).record t) hreading hstep
        (reading_local (Shard.fire_eq_some hstep).1) ?_
      intro j hne hj
      rcases record_of_other (locked_of_reach hx) hstep hne with hkeep | hnone
      · rwa [hkeep]
      · rw [hnone]
        exact hj.cleared
    | crash =>
      obtain rfl : y = x.crash := hstep
      exact fun j => reading_lost _ (x.task j)
    | losePower d z =>
      obtain ⟨-, -, rfl⟩ := hstep
      exact fun j => reading_lost _ (x.task j)

/-! ## Whole runs -/

/-- No step of a task that is right about its record parts the queue from the records. -/
theorem Move.mirrored (h : Move E i s t s' t') (hreading : Reading (t.view E s i).record t)
    (hs : s.store.current.Mirrored) : s'.store.current.Mirrored := by
  cases h.store with
  | keep hstore => rwa [hstore]
  | publication now ht hstore =>
    subst ht
    rw [hstore, Shared.commit_current]
    exact hs.commitBatch hreading _ _
  | heal ht hstore =>
    subst ht
    rw [hstore, Shared.commit_current]
    exact hs.removeBatch hreading
  | requeue ht hstore =>
    subst ht
    rw [hstore, Shared.commit_current]
    exact hs.requeueBatch hreading.1 hreading.2
  | evict ht hstore =>
    subst ht
    rw [hstore, Shared.commit_current]
    exact hs.evictBatch hreading _
  | @reference c name op g now ht hstore =>
    rw [hstore]
    cases op with
    | bind artifact etag lastModified durability =>
      rw [ReferenceOp.commit, Shared.commit_current]
      exact hs.of_same rfl rfl
    | delete =>
      rw [ReferenceOp.commit, Shared.commit_current]
      exact hs.of_same rfl rfl
  | register ht hstore | patch ht hstore | delete ht hstore | finish ht hstore =>
    rw [hstore, Shared.commit_current]
    exact hs.of_same rfl rfl
  | deleteData ht hstore =>
    rw [hstore, Shared.commit_current]
    exact hs.deleteChannelData _

/-- In every state of every run queue and records agree, and they would after a loss of
power. -/
theorem mirrored_of_reach {G : Shard ι → Action ι → Prop} (h : (shard E).Reach G p) :
    p.shared.store.Always RocksMetadata.Mirrored := by
  refine h.invariant_of_reach (I := fun p => p.shared.store.Always RocksMetadata.Mirrored) ?_ ?_
  · rintro _ ⟨expirySeconds, now, rfl⟩
    exact Journal.Always.synced (RocksMetadata.Mirrored.empty.of_same rfl rfl)
  · intro x a y hx hmirrored _ hstep
    cases a with
    | thread i e =>
      have hmove := step_move (Shard.fire_eq_some hstep).1
      exact hmove.always hmirrored (hmove.mirrored (reading_of_reach hx i) hmirrored.current)
    | crash =>
      obtain rfl : y = x.crash := hstep
      exact hmirrored
    | losePower d z =>
      obtain ⟨-, hz, rfl⟩ := hstep
      exact Journal.Always.synced (hmirrored z hz)

/-- **Queue and records stay in bijection under every interleaving**: whatever operations
are in progress, fail, or are cut off by crashes and losses of power, a row is queued
exactly when the record of its artifact carries its deadline, every record has exactly one
row, and the eviction family holds no other key. The same is true of every state of the
store that a loss of power may fall back to. -/
theorem shard_queue_bijection {G : Shard ι → Action ι → Prop} (h : (shard E).Reach G p)
    {x : RocksMetadata} (hx : p.shared.store.Survives x) :
    (∀ c a t, x.row c a t = some () ↔ ∃ m, x.artifact c a = some m ∧ m.eligibleAt = t) ∧
    (∀ c a m, x.artifact c a = some m → ∃! t, x.row c a t = some ()) ∧
    (∀ k : Bytes, x.eviction[k]? = some () → ∃ c t a m, k = evictionKey c t a ∧
      x.artifact c a = some m ∧ m.eligibleAt = t) := by
  obtain ⟨hqueue, hkeys⟩ := mirrored_of_reach h x hx
  refine ⟨hqueue, fun c a m hm => ⟨m.eligibleAt, ?_, fun t ht => ?_⟩, fun k hk => ?_⟩
  · exact (hqueue.row_of_artifact hm _).mpr rfl
  · exact ((hqueue.row_of_artifact hm t).mp ht).symm
  · obtain ⟨c, t, a, rfl⟩ := hkeys k hk
    obtain ⟨m, hm, ht⟩ := (hqueue c a t).mp hk
    exact ⟨c, t, a, m, rfl, hm, ht⟩

/-- A requeue has read the record of an upload when the channel's deletion clears it; then
it writes its batch. -/
def requeueAcrossDeletion : List (Action (BitVec 128)) :=
  .thread 0 (.start (.register (sampleRecord 100 .active))) :: steps 0 5 3 ++
  .thread 1 (.start (.publish (sampleUpload sampleChannel .bestEffort .identity))) ::
    steps 1 100 14 ++
  .thread 2 (.start (.maintain sampleChannel ⟨200, sampleArtifact⟩ (.requeue 500))) ::
    steps 2 300 2 ++
  .thread 3 (.start (.delete sampleChannel none)) :: steps 3 310 8 ++ steps 2 320 1

/-- What the requeue brings back, it brings back with its row. -/
theorem requeued_record_has_row : ∃ p : Shard (BitVec 128),
    (shard sampleEnv).Reach (fun _ _ => True) p ∧
      p.shared.record sampleChannel sampleArtifact = some ⟨1, none, 100, 500, 1, .identity⟩ ∧
      p.shared.store.current.row sampleChannel sampleArtifact 500 = some () ∧
      ∃! t, p.shared.store.current.row sampleChannel sampleArtifact t = some () := by
  have hrun : (sampleRun (fun _ _ => true) requeueAcrossDeletion).any (fun p =>
      decide (p.shared.record sampleChannel sampleArtifact =
        some ⟨1, none, 100, 500, 1, .identity⟩)) = true := by
    decide
  obtain ⟨p, hp, hrecord⟩ := reach_of_sampleRun (G := fun _ _ => True) _ (fun _ _ _ => trivial) _ _
    hrun
  have hrecord := of_decide_eq_true hrecord
  obtain ⟨hrows, hunique, -⟩ := shard_queue_bijection hp (.inl rfl)
  exact ⟨p, hp, hrecord, (hrows _ _ _).mpr ⟨_, hrecord, rfl⟩, hunique _ _ _ hrecord⟩

end Flywheel
