import Flywheel.Lib.Scan
import Flywheel.Storage.ArtifactFiles
import Flywheel.Storage.Metadata

/-!
# What belongs to a channel

The rows and files of a channel are those below its key: `SameChannel c` says that two stores
have the same rows and the same registry record of `c`, `SameFiles c` that two disks have the
same entries below its directory. Each write has two lemmas: made for one channel it leaves
the others' data (`_other`), and made twice it keeps two states alike.

`reclaim_candidates` reads by a forward scan from the channel's key; it is modelled as the
loop it is, over the ordered keys of the eviction family.
-/

set_option autoImplicit false

namespace Flywheel

open Lib Std

/-! ## The eviction queue of a channel -/

/-- `u64::from_be_bytes`. -/
def fromBeBytes (bytes : Bytes) : UInt64 :=
  UInt64.ofNat (bytes.foldl (fun n b => n * 256 + b.toNat) 0)

/-- `decode_eviction_key`: only the length of the whole key is checked. -/
def decodeEvictionKey (key : Bytes) : Except String Candidate :=
  if h : key.length = 66 then
    .ok ⟨fromBeBytes ((key.drop 26).take 8), .fromDigest ⟨key.drop 34, by simp [h]⟩⟩
  else .error "invalid eviction key"

/-- The loop of `reclaim_candidates` over the keys the iterator yields. -/
def reclaimLoop (channel : Bytes) (limit : Nat) :
    List Bytes → List Candidate → Except String (List Candidate)
  | [], candidates => .ok candidates
  | key :: keys, candidates =>
    if !channel.isPrefixOf key || candidates.length ≥ limit then .ok candidates
    else
      match decodeEvictionKey key with
      | .ok candidate => reclaimLoop channel limit keys (candidates ++ [candidate])
      | .error message => .error message

/-- `reclaim_candidates`: up to `limit` heads of the channel's eviction queue. -/
def RocksMetadata.reclaimCandidates (s : RocksMetadata) (c : ChannelId) (limit : Nat) :
    Except String (List Candidate) :=
  reclaimLoop c.asKey limit (s.eviction.keys.dropWhile fun k => compare k c.asKey == .lt) []

/-- The loop looks at nothing beyond the keys of the channel. -/
theorem reclaimLoop_takeWhile (channel : Bytes) (limit : Nat) (keys : List Bytes)
    (candidates : List Candidate) :
    reclaimLoop channel limit (keys.takeWhile channel.isPrefixOf) candidates =
      reclaimLoop channel limit keys candidates := by
  induction keys generalizing candidates with
  | nil => rfl
  | cons key keys ih =>
    cases hkey : channel.isPrefixOf key with
    | false =>
      rw [List.takeWhile_cons_of_neg (by simp [hkey])]
      simp [reclaimLoop, hkey]
    | true =>
      rw [List.takeWhile_cons_of_pos hkey, reclaimLoop, reclaimLoop]
      split
      · rfl
      · split
        · exact ih _
        · rfl

theorem RocksMetadata.reclaimCandidates_eq_scan (s : RocksMetadata) (c : ChannelId) (limit : Nat) :
    s.reclaimCandidates c limit = reclaimLoop c.asKey limit (scan c.asKey s.eviction.keys) [] :=
  (reclaimLoop_takeWhile ..).symm

/-! ## Rows -/

/-- Two stores with the same data of channel `c`. -/
structure SameChannel (c : ChannelId) (x y : RocksMetadata) : Prop where
  artifacts : x.artifacts.AgreeBelow c.asKey y.artifacts
  references : x.references.AgreeBelow c.asKey y.references
  eviction : x.eviction.AgreeBelow c.asKey y.eviction
  channel : x.channel c = y.channel c

namespace SameChannel

variable {c d : ChannelId} {a : ArtifactId} {x y z : RocksMetadata}

theorem refl (c : ChannelId) (x : RocksMetadata) : SameChannel c x x :=
  ⟨.refl _ _, .refl _ _, .refl _ _, rfl⟩

theorem trans (hxy : SameChannel c x y) (hyz : SameChannel c y z) : SameChannel c x z :=
  ⟨hxy.artifacts.trans hyz.artifacts, hxy.references.trans hyz.references,
    hxy.eviction.trans hyz.eviction, hxy.channel.trans hyz.channel⟩

theorem symm (h : SameChannel c x y) : SameChannel c y x :=
  ⟨h.artifacts.symm, h.references.symm, h.eviction.symm, h.channel.symm⟩

/-! ### Reads -/

theorem artifact (h : SameChannel c x y) (a : ArtifactId) : x.artifact c a = y.artifact c a :=
  h.artifacts _ (List.prefix_append ..)

theorem reference (h : SameChannel c x y) (name : Bytes) :
    x.reference c name = y.reference c name :=
  h.references _ (List.prefix_append ..)

theorem reclaimCandidates (h : SameChannel c x y) (limit : Nat) :
    x.reclaimCandidates c limit = y.reclaimCandidates c limit := by
  rw [x.reclaimCandidates_eq_scan, y.reclaimCandidates_eq_scan, h.eviction.scan_eq]

/-! ### The same batch in both -/

theorem commitBatch (h : SameChannel c x y) (d : ChannelId) (a : ArtifactId) (found : Bool)
    (m : ArtifactMetadata) (r : Option (Bytes × ReferenceRecord)) :
    SameChannel c (x.commitBatch d a found m r) (y.commitBatch d a found m r) := by
  have hput : SameChannel c
      { x with
        artifacts := x.artifacts.put (artifactKey d a) m
        eviction := x.eviction.put (evictionKey d m.eligibleAt a) () }
      { y with
        artifacts := y.artifacts.put (artifactKey d a) m
        eviction := y.eviction.put (evictionKey d m.eligibleAt a) () } :=
    ⟨h.artifacts.put _ _, h.references, h.eviction.put _ _, h.channel⟩
  rcases r with _ | ⟨name, record⟩
  · cases found with
    | true => exact h
    | false => exact hput
  · cases found with
    | true => exact ⟨h.artifacts, h.references.put _ _, h.eviction, h.channel⟩
    | false => exact ⟨hput.artifacts, h.references.put _ _, hput.eviction, h.channel⟩

theorem removeBatch (h : SameChannel c x y) (d : ChannelId) (a : ArtifactId)
    (found : Option ArtifactMetadata) :
    SameChannel c (x.removeBatch d a found) (y.removeBatch d a found) := by
  refine ⟨h.artifacts.delete _, h.references, ?_, h.channel⟩
  cases found with
  | none => exact h.eviction
  | some m => exact h.eviction.delete _

theorem requeueBatch (h : SameChannel c x y) (d : ChannelId) (a : ArtifactId)
    (m : ArtifactMetadata) (old new : UInt64) :
    SameChannel c (x.requeueBatch d a m old new) (y.requeueBatch d a m old new) :=
  ⟨h.artifacts.put _ _, h.references, (h.eviction.delete _).put _ _, h.channel⟩

theorem evictBatch (h : SameChannel c x y) (d : ChannelId) (a : ArtifactId)
    (found : Option ArtifactMetadata) (t : UInt64) :
    SameChannel c (x.evictBatch d a found t).1 (y.evictBatch d a found t).1 := by
  cases found with
  | none => exact ⟨h.artifacts, h.references, h.eviction.delete _, h.channel⟩
  | some m =>
    by_cases hm : m.eligibleAt = t
    · simp only [RocksMetadata.evictBatch, hm, ne_eq, not_true_eq_false, if_false]
      exact ⟨h.artifacts.delete _, h.references, h.eviction.delete _, h.channel⟩
    · simp only [RocksMetadata.evictBatch, ne_eq, hm, not_false_eq_true, if_true]
      exact ⟨h.artifacts, h.references, h.eviction.delete _, h.channel⟩

theorem bindReference (h : SameChannel c x y) (d : ChannelId) (name : Bytes)
    (record : ReferenceRecord) :
    SameChannel c (x.bindReference d name record) (y.bindReference d name record) :=
  ⟨h.artifacts, h.references.put _ _, h.eviction, h.channel⟩

theorem deleteReference (h : SameChannel c x y) (d : ChannelId) (name : Bytes) :
    SameChannel c (x.deleteReference d name) (y.deleteReference d name) :=
  ⟨h.artifacts, h.references.delete _, h.eviction, h.channel⟩

theorem deleteChannelData (h : SameChannel c x y) (d : ChannelId) :
    SameChannel c (x.deleteChannelData d) (y.deleteChannelData d) :=
  ⟨h.artifacts.deleteRange _ _, h.references.deleteRange _ _, h.eviction.deleteRange _ _,
    h.channel⟩

theorem finishChannelDeletion (h : SameChannel c x y) (d : ChannelId) :
    SameChannel c (x.finishChannelDeletion d) (y.finishChannelDeletion d) :=
  ⟨h.artifacts, h.references, h.eviction, by simp [h.channel]⟩

/-! ### A batch of another channel -/

variable (hne : d ≠ c) (x)

include hne in
/-- No key of another channel is below this one's. -/
theorem not_below (rest : Bytes) : ¬ c.asKey <+: d.asKey ++ rest :=
  RocksMetadata.NoData.not_isPrefix hne rest

include hne

theorem commitBatch_other (a : ArtifactId) (found : Bool) (m : ArtifactMetadata)
    (r : Option (Bytes × ReferenceRecord)) : SameChannel c (x.commitBatch d a found m r) x := by
  have hput : SameChannel c { x with
      artifacts := x.artifacts.put (artifactKey d a) m
      eviction := x.eviction.put (evictionKey d m.eligibleAt a) () } x :=
    ⟨.put_left (not_below hne _) _ _, .refl _ _, .put_left (not_below hne _) _ _, rfl⟩
  rcases r with _ | ⟨name, record⟩
  · cases found with
    | true => exact .refl c x
    | false => exact hput
  · cases found with
    | true => exact ⟨.refl _ _, .put_left (not_below hne _) _ _, .refl _ _, rfl⟩
    | false => exact ⟨hput.artifacts, .put_left (not_below hne _) _ _, hput.eviction, rfl⟩

theorem removeBatch_other (a : ArtifactId) (found : Option ArtifactMetadata) :
    SameChannel c (x.removeBatch d a found) x := by
  refine ⟨.delete_left (not_below hne _) _, .refl _ _, ?_, rfl⟩
  cases found with
  | none => exact .refl _ _
  | some m => exact .delete_left (not_below hne _) _

theorem requeueBatch_other (a : ArtifactId) (m : ArtifactMetadata) (old new : UInt64) :
    SameChannel c (x.requeueBatch d a m old new) x :=
  ⟨.put_left (not_below hne _) _ _, .refl _ _,
    .trans (.put_left (not_below hne _) _ _) (.delete_left (not_below hne _) _), rfl⟩

theorem evictBatch_other (a : ArtifactId) (found : Option ArtifactMetadata) (t : UInt64) :
    SameChannel c (x.evictBatch d a found t).1 x := by
  have hrow : x.eviction.delete (evictionKey d t a) |>.AgreeBelow c.asKey x.eviction :=
    .delete_left (not_below hne _) _
  cases found with
  | none => exact ⟨.refl _ _, .refl _ _, hrow, rfl⟩
  | some m =>
    by_cases hm : m.eligibleAt = t
    · simp only [RocksMetadata.evictBatch, hm, ne_eq, not_true_eq_false, if_false]
      exact ⟨.delete_left (not_below hne _) _, .refl _ _, hrow, rfl⟩
    · simp only [RocksMetadata.evictBatch, ne_eq, hm, not_false_eq_true, if_true]
      exact ⟨.refl _ _, .refl _ _, hrow, rfl⟩

theorem bindReference_other (name : Bytes) (record : ReferenceRecord) :
    SameChannel c (x.bindReference d name record) x :=
  ⟨.refl _ _, .put_left (not_below hne _) _ _, .refl _ _, rfl⟩

theorem deleteReference_other (name : Bytes) : SameChannel c (x.deleteReference d name) x :=
  ⟨.refl _ _, .delete_left (not_below hne _) _, .refl _ _, rfl⟩

/-- The range deletion stops short of the neighbouring channel, and starts behind the other. -/
theorem deleteChannelData_other : SameChannel c (x.deleteChannelData d) x := by
  have hrange : ∀ k, c.asKey <+: k → inRange d.asKey (prefixEnd d.asKey) k = false := by
    rintro _ ⟨rest, rfl⟩
    rw [Bool.eq_false_iff]
    exact fun hin => hne ((mem_channelRange_iff d c rest).mp hin)
  exact ⟨.deleteRange_left hrange _, .deleteRange_left hrange _, .deleteRange_left hrange _, rfl⟩

theorem finishChannelDeletion_other : SameChannel c (x.finishChannelDeletion d) x :=
  ⟨.refl _ _, .refl _ _, .refl _ _, by simp [hne]⟩

omit hne in
theorem storeChannel_other {record : ChannelRecord} (hne : record.id ≠ c) :
    SameChannel c (x.storeChannel record) x :=
  ⟨.refl _ _, .refl _ _, .refl _ _, by simp [RocksMetadata.storeChannel_channel, hne]⟩

end SameChannel

/-! ## Files -/

/-- Two disks with the same files of channel `c`. -/
abbrev SameFiles (c : ChannelId) (d d' : FsDisk) : Prop := Disk.AgreeBelow (channelDir c) d d'

theorem channelDir_prefix_tmpDir {c c' : ChannelId} : channelDir c <+: tmpDir c' ↔ c = c' := by
  rw [channelDir_prefix_iff]
  constructor
  · intro h
    exact (ChannelId.asKey_inj (by simpa [tmpDir] using h)).symm
  · rintro rfl
    rfl

theorem channelDir_prefix_shardDir {c c' : ChannelId} {a : ArtifactId} :
    channelDir c <+: shardDir c' a ↔ c = c' := by
  rw [channelDir_prefix_iff]
  constructor
  · intro h
    exact (ChannelId.asKey_inj (by simpa [shardDir] using h)).symm
  · rintro rfl
    rfl

/-- What is below the directory of one channel is not below another's. -/
theorem not_isPrefix_channelDir {c d : ChannelId} (hne : d ≠ c) {p : Path}
    (hp : channelDir d <+: p) : ¬ channelDir c <+: p := by
  intro hc
  rw [channelDir_prefix_iff] at hp hc
  exact hne (ChannelId.asKey_inj (Option.some.inj (hp.symm.trans hc)))

end Flywheel
