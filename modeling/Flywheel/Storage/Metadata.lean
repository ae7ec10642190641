import Flywheel.Channel

/-!
# The metadata store (`src/storage/metadata`)

`RocksMetadata` keeps four column families under byte keys. Each operation of the source
reads and then applies one atomic batch; the two halves are separate definitions
(`commitBatch`, `removeBatch`, `requeueBatch`, `evictBatch`), since other operations may
run between them, and the operation itself is their composition.

Records are kept decoded: `encode_record` and `decode_record` are inverse on what the
store writes itself. Reference names are the UTF-8 bytes of the source's strings.

Each batch has two lemmas: the artifact record (`artifact`) and the queue row (`row`)
it leaves for an arbitrary channel and artifact. They are what every proof above the
store uses.
-/

set_option autoImplicit false

namespace Flywheel

open Lib Std

/-! ## Keys -/

def artifactKey (c : ChannelId) (a : ArtifactId) : Bytes := c.asKey ++ a.digest.bytes

def referenceKey (c : ChannelId) (name : Bytes) : Bytes := c.asKey ++ name

/-- `u64::to_be_bytes`. -/
def beBytes (t : UInt64) : Bytes := (beDigits 256 8 t.toNat).map UInt8.ofNat

/-- A queue row is its key: channel, deadline, artifact. -/
def evictionKey (c : ChannelId) (eligibleAt : UInt64) (a : ArtifactId) : Bytes :=
  c.asKey ++ (beBytes eligibleAt ++ a.digest.bytes)

theorem beBytes_inj {s t : UInt64} (h : beBytes s = beBytes t) : s = t :=
  UInt64.toNat_inj.mp (map_ofNat_beDigits_inj (UInt64.toNat_lt s) (UInt64.toNat_lt t) h)

@[simp] theorem artifactKey_inj {c c' : ChannelId} {a a' : ArtifactId} :
    artifactKey c a = artifactKey c' a' ↔ c = c' ∧ a = a' := by
  constructor
  · intro h
    obtain ⟨hc, ha⟩ := List.append_inj h (by simp)
    exact ⟨ChannelId.asKey_inj hc, ArtifactId.ext_bytes ha⟩
  · rintro ⟨rfl, rfl⟩
    rfl

@[simp] theorem referenceKey_inj {c c' : ChannelId} {n n' : Bytes} :
    referenceKey c n = referenceKey c' n' ↔ c = c' ∧ n = n' := by
  constructor
  · intro h
    obtain ⟨hc, hn⟩ := List.append_inj h (by simp)
    exact ⟨ChannelId.asKey_inj hc, hn⟩
  · rintro ⟨rfl, rfl⟩
    rfl

@[simp] theorem evictionKey_inj {c c' : ChannelId} {t t' : UInt64} {a a' : ArtifactId} :
    evictionKey c t a = evictionKey c' t' a' ↔ c = c' ∧ t = t' ∧ a = a' := by
  constructor
  · intro h
    obtain ⟨hc, hrest⟩ := List.append_inj h (by simp)
    obtain ⟨ht, ha⟩ := List.append_inj hrest (by simp [beBytes])
    exact ⟨ChannelId.asKey_inj hc, beBytes_inj ht, ArtifactId.ext_bytes ha⟩
  · rintro ⟨rfl, rfl, rfl⟩
    rfl

@[simp] theorem asKey_inj_iff {c c' : ChannelId} : c.asKey = c'.asKey ↔ c = c' :=
  ⟨ChannelId.asKey_inj, fun h => h ▸ rfl⟩

/-- The last byte of a channel's text is a digit or a capital letter: adding one does not carry. -/
theorem ChannelId.getLast?_asKey (c : ChannelId) :
    ∃ x, c.asKey.getLast? = some x ∧ x.toNat < 255 := by
  obtain ⟨x, hlast⟩ : ∃ x, c.asKey.getLast? = some x :=
    Option.isSome_iff_exists.mp (by simp [asKey, beDigits])
  obtain ⟨d, _, rfl⟩ := List.mem_map.mp (List.mem_of_getLast? hlast)
  exact ⟨_, hlast, crockford_lt d⟩

/-- A key that is long enough is in the range of a channel exactly if it starts with its text. -/
theorem inRange_asKey_iff (c : ChannelId) {k : Bytes} (hk : c.asKey.length ≤ k.length) :
    inRange c.asKey (prefixEnd c.asKey) k = true ↔ c.asKey <+: k := by
  obtain ⟨x, hlast, hx⟩ := c.getLast?_asKey
  exact mem_prefixEnd_iff hlast hx hk

/-- The range `delete_channel_data` deletes holds exactly the channel's own keys. -/
theorem mem_channelRange_iff (c c' : ChannelId) (rest : Bytes) :
    inRange c.asKey (prefixEnd c.asKey) (c'.asKey ++ rest) = true ↔ c = c' := by
  rw [inRange_asKey_iff c (by simp)]
  constructor
  · exact ChannelId.eq_of_asKey_prefix
  · rintro rfl
    exact List.prefix_append _ _

/-! ## The store -/

structure ReferenceRecord where
  artifact : ArtifactId
  updatedAt : UInt64
  etag : Option String
  lastModified : Option String
  deriving DecidableEq

/-- A candidate row of the eviction queue. -/
structure Candidate where
  eligibleAt : UInt64
  artifact : ArtifactId
  deriving DecidableEq

/-- The outcome of an eviction attempt. -/
inductive Evicted where
  | removed (storedLen : Nat)
  | stale
  deriving DecidableEq

structure RocksMetadata where
  artifacts : Family ArtifactMetadata
  references : Family ReferenceRecord
  eviction : Family Unit
  channels : Family ChannelRecord

namespace RocksMetadata

/-- A freshly opened store. -/
def empty : RocksMetadata := ⟨∅, ∅, ∅, ∅⟩

variable (s : RocksMetadata) (c : ChannelId) (a : ArtifactId)

def artifact : Option ArtifactMetadata := s.artifacts[artifactKey c a]?

def reference (name : Bytes) : Option ReferenceRecord := s.references[referenceKey c name]?

def channel : Option ChannelRecord := s.channels[c.asKey]?

/-- The queue row of `a` with deadline `t`, if the eviction family holds it. -/
def row (t : UInt64) : Option Unit := s.eviction[evictionKey c t a]?

/-! ### Publication and removal -/

/-- The batch of `commit_publication`, given whether the record was found. -/
def commitBatch (found : Bool) (metadata : ArtifactMetadata)
    (reference : Option (Bytes × ReferenceRecord)) : RocksMetadata :=
  let s := if found then s else
    { s with
      artifacts := s.artifacts.put (artifactKey c a) metadata
      eviction := s.eviction.put (evictionKey c metadata.eligibleAt a) () }
  match reference with
  | some (name, record) => { s with references := s.references.put (referenceKey c name) record }
  | none => s

/-- `commit_publication`: an existing record is kept; reports whether one was created. -/
def commitPublication (metadata : ArtifactMetadata)
    (reference : Option (Bytes × ReferenceRecord)) : RocksMetadata × Bool :=
  let found := (s.artifact c a).isSome
  (s.commitBatch c a found metadata reference, !found)

/-- The batch of `remove_artifact`, given the record it read. -/
def removeBatch (found : Option ArtifactMetadata) : RocksMetadata :=
  { s with
    eviction := match found with
      | some metadata => s.eviction.delete (evictionKey c metadata.eligibleAt a)
      | none => s.eviction
    artifacts := s.artifacts.delete (artifactKey c a) }

def removeArtifact : RocksMetadata := s.removeBatch c a (s.artifact c a)

/-! ### The eviction queue -/

/-- The batch of `requeue`, given the record it read. -/
def requeueBatch (metadata : ArtifactMetadata) (old new : UInt64) : RocksMetadata :=
  { s with
    eviction := (s.eviction.delete (evictionKey c old a)).put (evictionKey c new a) ()
    artifacts := s.artifacts.put (artifactKey c a) { metadata with eligibleAt := new } }

/-- `requeue`: moves the row to a new deadline unless the artifact no longer has the
old one. -/
def requeue (old new : UInt64) : RocksMetadata :=
  match s.artifact c a with
  | none => s
  | some metadata =>
    if metadata.eligibleAt ≠ old then s else s.requeueBatch c a metadata old new

/-- The batch and outcome of `evict`, given the record it read. -/
def evictBatch (found : Option ArtifactMetadata) (eligibleAt : UInt64) :
    RocksMetadata × Evicted :=
  match found with
  | some metadata =>
    if metadata.eligibleAt ≠ eligibleAt then
      ({ s with eviction := s.eviction.delete (evictionKey c eligibleAt a) }, .stale)
    else
      ({ s with
        artifacts := s.artifacts.delete (artifactKey c a)
        eviction := s.eviction.delete (evictionKey c eligibleAt a) },
        .removed metadata.storedLen)
  | none => ({ s with eviction := s.eviction.delete (evictionKey c eligibleAt a) }, .stale)

def evict (eligibleAt : UInt64) : RocksMetadata × Evicted :=
  s.evictBatch c a (s.artifact c a) eligibleAt

/-! ### References -/

def bindReference (name : Bytes) (record : ReferenceRecord) : RocksMetadata :=
  { s with references := s.references.put (referenceKey c name) record }

def deleteReference (name : Bytes) : RocksMetadata :=
  { s with references := s.references.delete (referenceKey c name) }

/-! ### Channels -/

def storeChannel (record : ChannelRecord) : RocksMetadata :=
  { s with channels := s.channels.put record.id.asKey record }

def deleteChannelData : RocksMetadata :=
  { s with
    artifacts := s.artifacts.deleteRange c.asKey (prefixEnd c.asKey)
    references := s.references.deleteRange c.asKey (prefixEnd c.asKey)
    eviction := s.eviction.deleteRange c.asKey (prefixEnd c.asKey) }

def finishChannelDeletion : RocksMetadata :=
  { s with channels := s.channels.delete c.asKey }

/-! ## The record, the row, the reference and the registry entry each batch leaves -/

section Views

variable (s : RocksMetadata) (c c' : ChannelId) (a a' : ArtifactId)

@[simp] theorem commitBatch_artifact (found : Bool) (m : ArtifactMetadata)
    (r : Option (Bytes × ReferenceRecord)) :
    (s.commitBatch c a found m r).artifact c' a' =
      if found = false ∧ c = c' ∧ a = a' then some m else s.artifact c' a' := by
  cases found <;> rcases r with _ | ⟨n, r⟩ <;> simp [commitBatch, artifact]

@[simp] theorem commitBatch_row (found : Bool) (m : ArtifactMetadata)
    (r : Option (Bytes × ReferenceRecord)) (t : UInt64) :
    (s.commitBatch c a found m r).row c' a' t =
      if found = false ∧ c = c' ∧ m.eligibleAt = t ∧ a = a' then some () else s.row c' a' t := by
  cases found <;> rcases r with _ | ⟨n, r⟩ <;> simp [commitBatch, row]

@[simp] theorem commitBatch_channels (found : Bool) (m : ArtifactMetadata)
    (r : Option (Bytes × ReferenceRecord)) :
    (s.commitBatch c a found m r).channels = s.channels := by
  cases found <;> rcases r with _ | ⟨n, r⟩ <;> rfl

@[simp] theorem removeBatch_artifact (found : Option ArtifactMetadata) :
    (s.removeBatch c a found).artifact c' a' =
      if c = c' ∧ a = a' then none else s.artifact c' a' := by
  simp [removeBatch, artifact]

@[simp] theorem removeBatch_row (found : Option ArtifactMetadata) (t : UInt64) :
    (s.removeBatch c a found).row c' a' t =
      if c = c' ∧ found.map (·.eligibleAt) = some t ∧ a = a' then none else s.row c' a' t := by
  cases found <;> simp [removeBatch, row]

@[simp] theorem requeueBatch_artifact (m : ArtifactMetadata) (old new : UInt64) :
    (s.requeueBatch c a m old new).artifact c' a' =
      if c = c' ∧ a = a' then some { m with eligibleAt := new } else s.artifact c' a' := by
  simp [requeueBatch, artifact]

@[simp] theorem requeueBatch_row (m : ArtifactMetadata) (old new t : UInt64) :
    (s.requeueBatch c a m old new).row c' a' t =
      if c = c' ∧ new = t ∧ a = a' then some ()
      else if c = c' ∧ old = t ∧ a = a' then none else s.row c' a' t := by
  simp [requeueBatch, row]

@[simp] theorem evictBatch_artifact (found : Option ArtifactMetadata) (t : UInt64) :
    (s.evictBatch c a found t).1.artifact c' a' =
      if found.map (·.eligibleAt) = some t ∧ c = c' ∧ a = a' then none
      else s.artifact c' a' := by
  cases found with
  | none => simp [evictBatch, artifact]
  | some m => by_cases h : m.eligibleAt = t <;> simp [evictBatch, artifact, h]

@[simp] theorem evictBatch_row (found : Option ArtifactMetadata) (t t' : UInt64) :
    (s.evictBatch c a found t).1.row c' a' t' =
      if c = c' ∧ t = t' ∧ a = a' then none else s.row c' a' t' := by
  cases found with
  | none => simp [evictBatch, row]
  | some m => by_cases h : m.eligibleAt = t <;> simp [evictBatch, row, h]

@[simp] theorem evictBatch_channels (found : Option ArtifactMetadata) (t : UInt64) :
    (s.evictBatch c a found t).1.channels = s.channels := by
  cases found with
  | none => rfl
  | some m => by_cases h : m.eligibleAt = t <;> simp [evictBatch, h]

@[simp] theorem deleteChannelData_artifact :
    (s.deleteChannelData c).artifact c' a' = if c = c' then none else s.artifact c' a' := by
  simp [deleteChannelData, artifact, artifactKey, mem_channelRange_iff]

@[simp] theorem deleteChannelData_row (t : UInt64) :
    (s.deleteChannelData c).row c' a' t = if c = c' then none else s.row c' a' t := by
  simp [deleteChannelData, row, evictionKey, mem_channelRange_iff]

@[simp] theorem bindReference_artifact (n : Bytes) (r : ReferenceRecord) :
    (s.bindReference c n r).artifact c' a' = s.artifact c' a' := rfl

@[simp] theorem deleteReference_artifact (n : Bytes) :
    (s.deleteReference c n).artifact c' a' = s.artifact c' a' := rfl

@[simp] theorem storeChannel_artifact (r : ChannelRecord) :
    (s.storeChannel r).artifact c' a' = s.artifact c' a' := rfl

@[simp] theorem finishChannelDeletion_artifact :
    (s.finishChannelDeletion c).artifact c' a' = s.artifact c' a' := rfl

@[simp] theorem commitBatch_reference (found : Bool) (m : ArtifactMetadata)
    (r : Option (Bytes × ReferenceRecord)) (n : Bytes) :
    (s.commitBatch c a found m r).reference c' n =
      match r with
      | some (n', record) => if c = c' ∧ n' = n then some record else s.reference c' n
      | none => s.reference c' n := by
  cases found <;> rcases r with _ | ⟨n', r⟩ <;> simp [commitBatch, reference]

@[simp] theorem evictBatch_reference (found : Option ArtifactMetadata) (t : UInt64) (n : Bytes) :
    (s.evictBatch c a found t).1.reference c' n = s.reference c' n := by
  cases found with
  | none => rfl
  | some m => by_cases h : m.eligibleAt = t <;> simp [evictBatch, reference, h]

@[simp] theorem bindReference_reference (n n' : Bytes) (r : ReferenceRecord) :
    (s.bindReference c n r).reference c' n' =
      if c = c' ∧ n = n' then some r else s.reference c' n' := by
  simp [bindReference, reference]

@[simp] theorem deleteReference_reference (n n' : Bytes) :
    (s.deleteReference c n).reference c' n' =
      if c = c' ∧ n = n' then none else s.reference c' n' := by
  simp [deleteReference, reference]

@[simp] theorem deleteChannelData_reference (n : Bytes) :
    (s.deleteChannelData c).reference c' n = if c = c' then none else s.reference c' n := by
  simp [deleteChannelData, reference, referenceKey, mem_channelRange_iff]

@[simp] theorem storeChannel_channel (r : ChannelRecord) :
    (s.storeChannel r).channel c = if r.id = c then some r else s.channel c := by
  simp [storeChannel, channel]

@[simp] theorem finishChannelDeletion_channel :
    (s.finishChannelDeletion c).channel c' = if c = c' then none else s.channel c' := by
  simp [finishChannelDeletion, channel]

end Views

/-! ## Channels without data -/

/-- No artifact, reference or queue row has a key of the channel. -/
structure NoData (c : ChannelId) (s : RocksMetadata) : Prop where
  artifacts : s.artifacts.Clear c.asKey
  references : s.references.Clear c.asKey
  eviction : s.eviction.Clear c.asKey

namespace NoData

variable {s : RocksMetadata} {c c' : ChannelId} {a : ArtifactId}

/-- `delete_channel_data` leaves no data of its channel. -/
theorem deleteChannelData_self (s : RocksMetadata) (c : ChannelId) :
    NoData c (s.deleteChannelData c) := by
  have hin : ∀ k, c.asKey <+: k → inRange c.asKey (prefixEnd c.asKey) k = true := by
    rintro _ ⟨rest, rfl⟩
    exact (mem_channelRange_iff c c rest).mpr rfl
  refine ⟨fun k hk => ?_, fun k hk => ?_, fun k hk => ?_⟩ <;>
    exact (Family.get_deleteRange ..).trans (if_pos (hin k hk))

/-- The keys of one channel are not in another. -/
theorem not_isPrefix (hne : c' ≠ c) (rest : Bytes) : ¬ c.asKey <+: c'.asKey ++ rest :=
  fun h => hne (ChannelId.eq_of_asKey_prefix h).symm

theorem commitBatch (h : NoData c s) (hne : c' ≠ c) (found : Bool) (m : ArtifactMetadata)
    (r : Option (Bytes × ReferenceRecord)) : NoData c (s.commitBatch c' a found m r) := by
  have hput : NoData c { s with
      artifacts := s.artifacts.put (artifactKey c' a) m
      eviction := s.eviction.put (evictionKey c' m.eligibleAt a) () } :=
    ⟨h.artifacts.put (not_isPrefix hne _) m, h.references, h.eviction.put (not_isPrefix hne _) ()⟩
  have hreference : ∀ {x : RocksMetadata} name record, NoData c x →
      NoData c { x with references := x.references.put (referenceKey c' name) record } :=
    fun name record hx => ⟨hx.artifacts, hx.references.put (not_isPrefix hne _) record, hx.eviction⟩
  rcases r with _ | ⟨name, record⟩
  · cases found with
    | true => exact h
    | false => exact hput
  · cases found with
    | true => exact hreference name record h
    | false => exact hreference name record hput

theorem removeBatch (h : NoData c s) (found : Option ArtifactMetadata) :
    NoData c (s.removeBatch c' a found) := by
  refine ⟨h.artifacts.delete _, h.references, ?_⟩
  cases found with
  | none => exact h.eviction
  | some m => exact h.eviction.delete _

theorem requeueBatch (h : NoData c s) (hne : c' ≠ c) (m : ArtifactMetadata) (old new : UInt64) :
    NoData c (s.requeueBatch c' a m old new) :=
  ⟨h.artifacts.put (not_isPrefix hne _) _, h.references,
    (h.eviction.delete _).put (not_isPrefix hne _) ()⟩

theorem evictBatch (h : NoData c s) (found : Option ArtifactMetadata) (t : UInt64) :
    NoData c (s.evictBatch c' a found t).1 := by
  have hstale : NoData c { s with eviction := s.eviction.delete (evictionKey c' t a) } :=
    ⟨h.artifacts, h.references, h.eviction.delete _⟩
  cases found with
  | none => exact hstale
  | some m =>
    by_cases hm : m.eligibleAt = t
    · simp only [RocksMetadata.evictBatch, hm, ne_eq, not_true_eq_false, if_false]
      exact ⟨h.artifacts.delete _, h.references, h.eviction.delete _⟩
    · simp only [RocksMetadata.evictBatch, ne_eq, hm, not_false_eq_true, if_true]
      exact hstale

theorem bindReference (h : NoData c s) (hne : c' ≠ c) (name : Bytes) (record : ReferenceRecord) :
    NoData c (s.bindReference c' name record) :=
  ⟨h.artifacts, h.references.put (not_isPrefix hne _) record, h.eviction⟩

theorem deleteReference (h : NoData c s) (name : Bytes) :
    NoData c (s.deleteReference c' name) :=
  ⟨h.artifacts, h.references.delete _, h.eviction⟩

theorem deleteChannelData (h : NoData c s) : NoData c (s.deleteChannelData c') :=
  ⟨h.artifacts.deleteRange _ _, h.references.deleteRange _ _, h.eviction.deleteRange _ _⟩

theorem artifact_eq_none (h : NoData c s) (a : ArtifactId) : s.artifact c a = none :=
  h.artifacts _ (List.prefix_append ..)

end NoData

/-! ## The registry -/

/-- Every registry row is under the key of the record in it. -/
def Keyed (s : RocksMetadata) : Prop :=
  ∀ (k : Bytes) (record : ChannelRecord), s.channels[k]? = some record → k = record.id.asKey

/-- `channels`: the registry in key order. -/
def channelRecords (s : RocksMetadata) : List ChannelRecord := s.channels.toList.map (·.2)

variable {s : RocksMetadata}

theorem Keyed.empty : Keyed RocksMetadata.empty := fun k record h => by
  simp [RocksMetadata.empty] at h

/-- The one way a record gets into the registry keeps the rows keyed. -/
theorem Keyed.storeChannel (h : s.Keyed) (record : ChannelRecord) :
    (s.storeChannel record).Keyed := by
  intro k record' hk
  rw [RocksMetadata.storeChannel, Family.get_put] at hk
  split at hk
  · rename_i hkey
    rw [← hkey, Option.some.inj hk]
  · exact h k record' hk

theorem Keyed.finishChannelDeletion (h : s.Keyed) (c : ChannelId) :
    (s.finishChannelDeletion c).Keyed := by
  intro k record hk
  rw [RocksMetadata.finishChannelDeletion, Family.get_delete] at hk
  split at hk
  · cases hk
  · exact h k record hk

end RocksMetadata

end Flywheel
