import Flywheel.Storage.Metadata

/-!
# The eviction queue mirrors the artifact records

Seven operations write the `artifacts` and `eviction` families in different
combinations. What they keep between them is `QueueMatches`: a row for a channel, a
deadline and an artifact is there exactly when the artifact's record carries that
deadline. So an artifact that can be read can be reclaimed, and the queue never names an
artifact that is gone.

`requeue` and `evict` take the deadline of a candidate read earlier and without a lock; it
may be any deadline at all, and the operations below are applied with arbitrary ones.
-/

set_option autoImplicit false

namespace Flywheel

open Lib Std

namespace RocksMetadata

/-- The queue rows are exactly the deadlines of the records. -/
def QueueMatches (s : RocksMetadata) : Prop :=
  ∀ c a t, s.row c a t = some () ↔ ∃ m, s.artifact c a = some m ∧ m.eligibleAt = t

/-- Every key of an eviction family is the key of a queue row. -/
def RowKeys (f : Family Unit) : Prop :=
  ∀ k : Bytes, f[k]? = some () → ∃ c t a, k = evictionKey c t a

/-- The operations that write artifact records, queue rows or references. -/
inductive Op where
  | commitPublication (c : ChannelId) (a : ArtifactId) (metadata : ArtifactMetadata)
      (reference : Option (Bytes × ReferenceRecord))
  | removeArtifact (c : ChannelId) (a : ArtifactId)
  | requeue (c : ChannelId) (a : ArtifactId) (old new : UInt64)
  | evict (c : ChannelId) (a : ArtifactId) (eligibleAt : UInt64)
  | bindReference (c : ChannelId) (name : Bytes) (record : ReferenceRecord)
  | deleteReference (c : ChannelId) (name : Bytes)
  | deleteChannelData (c : ChannelId)

def apply (s : RocksMetadata) : Op → RocksMetadata
  | .commitPublication c a m r => (s.commitPublication c a m r).1
  | .removeArtifact c a => s.removeArtifact c a
  | .requeue c a old new => s.requeue c a old new
  | .evict c a t => (s.evict c a t).1
  | .bindReference c n r => s.bindReference c n r
  | .deleteReference c n => s.deleteReference c n
  | .deleteChannelData c => s.deleteChannelData c

variable {s : RocksMetadata}

/-! ## Rows and records, operation by operation -/

theorem QueueMatches.row_none (h : s.QueueMatches) {c : ChannelId} {a : ArtifactId}
    (hnone : s.artifact c a = none) (t : UInt64) : s.row c a t = none := by
  cases hr : s.row c a t with
  | none => rfl
  | some u =>
    obtain ⟨m, hm, -⟩ := (h c a t).mp hr
    rw [hnone] at hm
    cases hm

theorem QueueMatches.row_of_artifact (h : s.QueueMatches) {c : ChannelId} {a : ArtifactId}
    {m : ArtifactMetadata} (hm : s.artifact c a = some m) (t : UInt64) :
    s.row c a t = some () ↔ m.eligibleAt = t := by
  rw [h c a t, hm]
  simp

/-- A write that leaves other artifacts alone need only be checked at its own. -/
theorem QueueMatches.of_local {s' : RocksMetadata} (h : s.QueueMatches) {c : ChannelId}
    {a : ArtifactId}
    (hother : ∀ c' a', ¬(c = c' ∧ a = a') →
      s'.artifact c' a' = s.artifact c' a' ∧ ∀ t, s'.row c' a' t = s.row c' a' t)
    (hself : ∀ t, s'.row c a t = some () ↔ ∃ m, s'.artifact c a = some m ∧ m.eligibleAt = t) :
    s'.QueueMatches := by
  intro c' a' t
  by_cases hca : c = c' ∧ a = a'
  · obtain ⟨rfl, rfl⟩ := hca
    exact hself t
  · obtain ⟨hart, hrow⟩ := hother c' a' hca
    rw [hart, hrow t]
    exact h c' a' t

theorem QueueMatches.commitPublication (h : s.QueueMatches) (c : ChannelId) (a : ArtifactId)
    (m : ArtifactMetadata) (r : Option (Bytes × ReferenceRecord)) :
    (s.commitPublication c a m r).1.QueueMatches := by
  refine h.of_local (c := c) (a := a) (fun c' a' hne => ⟨?_, fun t => ?_⟩) fun t => ?_
  · simp only [RocksMetadata.commitPublication, commitBatch_artifact]
    exact if_neg fun hc => hne hc.2
  · simp only [RocksMetadata.commitPublication, commitBatch_row]
    exact if_neg fun hc => hne ⟨hc.2.1, hc.2.2.2⟩
  · cases hm : s.artifact c a with
    | some m₀ => simp [RocksMetadata.commitPublication, hm, h.row_of_artifact hm]
    | none => simp [RocksMetadata.commitPublication, hm, h.row_none hm]

theorem QueueMatches.removeArtifact (h : s.QueueMatches) (c : ChannelId) (a : ArtifactId) :
    (s.removeArtifact c a).QueueMatches := by
  refine h.of_local (c := c) (a := a) (fun c' a' hne => ⟨?_, fun t => ?_⟩) fun t => ?_
  · simp only [RocksMetadata.removeArtifact, removeBatch_artifact]
    exact if_neg hne
  · simp only [RocksMetadata.removeArtifact, removeBatch_row]
    exact if_neg fun hc => hne ⟨hc.1, hc.2.2⟩
  · cases hm : s.artifact c a with
    | none => simp [RocksMetadata.removeArtifact, hm, h.row_none hm]
    | some m =>
      -- the record's own row goes with it, and it had no other
      simp [RocksMetadata.removeArtifact, hm, h.row_of_artifact hm]

theorem QueueMatches.requeue (h : s.QueueMatches) (c : ChannelId) (a : ArtifactId)
    (old new : UInt64) : (s.requeue c a old new).QueueMatches := by
  unfold RocksMetadata.requeue
  cases hm : s.artifact c a with
  | none => exact h
  | some m =>
    dsimp only
    split
    · exact h
    · rename_i hold
      rw [not_not] at hold
      refine h.of_local (c := c) (a := a) (fun c' a' hne => ⟨?_, fun t => ?_⟩) fun t => ?_
      · rw [requeueBatch_artifact, if_neg hne]
      · rw [requeueBatch_row, if_neg fun hc => hne ⟨hc.1, hc.2.2⟩,
          if_neg fun hc => hne ⟨hc.1, hc.2.2⟩]
      · -- `old` may equal `new`: the batch deletes before it puts
        by_cases hnew : new = t
        · simp [hnew]
        · by_cases hot : old = t
          · simp [hnew, hot]
          · simp [hnew, hot, h.row_of_artifact hm, hold]

theorem QueueMatches.evict (h : s.QueueMatches) (c : ChannelId) (a : ArtifactId) (t₀ : UInt64) :
    (s.evict c a t₀).1.QueueMatches := by
  refine h.of_local (c := c) (a := a) (fun c' a' hne => ⟨?_, fun t => ?_⟩) fun t => ?_
  · simp only [RocksMetadata.evict, evictBatch_artifact]
    exact if_neg fun hc => hne hc.2
  · simp only [RocksMetadata.evict, evictBatch_row]
    exact if_neg fun hc => hne ⟨hc.1, hc.2.2⟩
  · cases hm : s.artifact c a with
    | none => simp [RocksMetadata.evict, hm, h.row_none hm]
    | some m =>
      by_cases ht : m.eligibleAt = t₀
      · simp [RocksMetadata.evict, hm, h.row_of_artifact hm, ht]
      · -- the candidate is stale: only a row the record does not own can go
        simp [RocksMetadata.evict, hm, h.row_of_artifact hm, ht]
        rintro rfl rfl
        exact ht rfl

theorem QueueMatches.deleteChannelData (h : s.QueueMatches) (c : ChannelId) :
    (s.deleteChannelData c).QueueMatches := by
  intro c' a' t
  by_cases hc : c = c'
  · simp [hc]
  · simp [hc, h c' a' t]

/-- Every operation keeps queue and records in step. -/
theorem QueueMatches.apply (h : s.QueueMatches) (op : Op) : (s.apply op).QueueMatches := by
  cases op with
  | commitPublication c a m r => exact h.commitPublication c a m r
  | removeArtifact c a => exact h.removeArtifact c a
  | requeue c a old new => exact h.requeue c a old new
  | evict c a t => exact h.evict c a t
  | bindReference c n r => exact h
  | deleteReference c n => exact h
  | deleteChannelData c => exact h.deleteChannelData c

theorem RowKeys.put {f : Family Unit} (h : RowKeys f) (c : ChannelId) (t : UInt64)
    (a : ArtifactId) : RowKeys (f.put (evictionKey c t a) ()) := by
  intro k hk
  rw [Family.get_put] at hk
  split at hk
  · rename_i heq
    exact ⟨c, t, a, heq.symm⟩
  · exact h k hk

theorem RowKeys.delete {f : Family Unit} (h : RowKeys f) (k₀ : Bytes) :
    RowKeys (f.delete k₀) := by
  intro k hk
  rw [Family.get_delete] at hk
  split at hk
  · cases hk
  · exact h k hk

theorem RowKeys.deleteRange {f : Family Unit} (h : RowKeys f) (lo hi : Bytes) :
    RowKeys (f.deleteRange lo hi) := by
  intro k hk
  rw [Family.get_deleteRange] at hk
  split at hk
  · cases hk
  · exact h k hk

theorem RowKeys.apply (h : RowKeys s.eviction) (op : Op) : RowKeys (s.apply op).eviction := by
  cases op with
  | commitPublication c a m r =>
    simp only [RocksMetadata.apply, RocksMetadata.commitPublication, commitBatch]
    rcases r with _ | ⟨n, r⟩ <;> dsimp only <;> split
    · exact h
    · exact h.put c m.eligibleAt a
    · exact h
    · exact h.put c m.eligibleAt a
  | removeArtifact c a =>
    simp only [RocksMetadata.apply, RocksMetadata.removeArtifact, removeBatch]
    split
    · exact h.delete _
    · exact h
  | requeue c a old new =>
    simp only [RocksMetadata.apply, RocksMetadata.requeue]
    split
    · exact h
    · split
      · exact h
      · exact (h.delete _).put c new a
  | evict c a t =>
    simp only [RocksMetadata.apply, RocksMetadata.evict, evictBatch]
    split
    · split <;> exact h.delete _
    · exact h.delete _
  | bindReference c n r => exact h
  | deleteReference c n => exact h
  | deleteChannelData c => exact h.deleteRange _ _

/-! ## Whole histories -/

/-- The store after a sequence of operations, starting from an empty one. -/
def after (ops : List Op) : RocksMetadata := ops.foldl apply empty

theorem queue_after (ops : List Op) :
    (after ops).QueueMatches ∧ RowKeys (after ops).eviction := by
  have hrun : ∀ (ops : List Op) (s : RocksMetadata), s.QueueMatches ∧ RowKeys s.eviction →
      (ops.foldl apply s).QueueMatches ∧ RowKeys (ops.foldl apply s).eviction := by
    intro ops
    induction ops with
    | nil => exact fun _ h => h
    | cons op ops ih => exact fun s h => ih (s.apply op) ⟨h.1.apply op, h.2.apply op⟩
  refine hrun ops empty ⟨fun c a t => ?_, fun k hk => ?_⟩
  · simp [row, artifact, empty]
  · simp [empty] at hk

/-- **Queue and records are in bijection** after every sequence of store operations: a row
is queued exactly when the record carries its deadline; so every artifact that has a record
has exactly one row, and every key of the eviction family is the row of a record. -/
theorem eviction_queue_bijection (ops : List Op) :
    (∀ c a t, (after ops).row c a t = some () ↔
      ∃ m, (after ops).artifact c a = some m ∧ m.eligibleAt = t) ∧
    (∀ c a m, (after ops).artifact c a = some m → ∃! t, (after ops).row c a t = some ()) ∧
    (∀ k : Bytes, (after ops).eviction[k]? = some () → ∃ c t a m, k = evictionKey c t a ∧
      (after ops).artifact c a = some m ∧ m.eligibleAt = t) := by
  obtain ⟨hmatch, hkeys⟩ := queue_after ops
  refine ⟨hmatch, fun c a m hm => ⟨m.eligibleAt, ?_, fun t ht => ?_⟩, fun k hk => ?_⟩
  · exact (hmatch.row_of_artifact hm _).mpr rfl
  · exact ((hmatch.row_of_artifact hm t).mp ht).symm
  · obtain ⟨c, t, a, rfl⟩ := hkeys k hk
    obtain ⟨m, hm, ht⟩ := (hmatch c a t).mp hk
    exact ⟨c, t, a, m, rfl, hm, ht⟩

end RocksMetadata

end Flywheel
