import Flywheel.Storage.Queue
import Flywheel.Storage.Isolation

/-!
# The order of the eviction queue

A queue row is its key: channel, big-endian deadline, digest. Keys of one channel therefore sort
by deadline and then by digest, and the rows of a channel have one order (`IsQueue`). The scan of
`reclaim_candidates` returns the first of them (`reclaimCandidates_eq_take`).
-/

set_option autoImplicit false

namespace Flywheel

open Lib Std

/-! ## Keys -/

theorem compare_toNat (s t : UInt64) : compare s t = compare s.toNat t.toNat := by
  simp [compare, compareOfLessAndEq, UInt64.lt_iff_toNat_lt, ← UInt64.toNat_inj]

theorem compare_ofNat {m n : Nat} (hm : m < 256) (hn : n < 256) :
    compare (UInt8.ofNat m) (UInt8.ofNat n) = compare m n := by
  simp [compare, compareOfLessAndEq, UInt8.lt_iff_toNat_lt, ← UInt8.toNat_inj,
    Nat.mod_eq_of_lt hm, Nat.mod_eq_of_lt hn]

/-- Big-endian bytes sort as the numbers do. -/
theorem compare_beBytes (s t : UInt64) : compare (beBytes s) (beBytes t) = compare s t := by
  have hdigit : ∀ u : UInt64, ∀ d ∈ beDigits 256 8 u.toNat, d < 256 := fun u d =>
    beDigits_lt (by decide)
  have hmod : ∀ u : UInt64, u.toNat % 256 ^ 8 = u.toNat := fun u => Nat.mod_eq_of_lt u.toNat_lt
  rw [beBytes, beBytes, compare_map fun m hm n hn =>
      compare_ofNat (hdigit s m hm) (hdigit t n hn),
    compare_beDigits (by decide), hmod, hmod, compare_toNat]

theorem length_beBytes (t : UInt64) : (beBytes t).length = 8 := by
  simp [beBytes]

/-- The rows of a channel sort by deadline, then by digest. -/
theorem compare_evictionKey (c : ChannelId) (t t' : UInt64) (a a' : ArtifactId) :
    compare (evictionKey c t a) (evictionKey c t' a') =
      (compare t t').then (compare a.digest.bytes a'.digest.bytes) := by
  rw [evictionKey, evictionKey, compare_append rfl, ReflOrd.compare_self,
    compare_append ((length_beBytes t).trans (length_beBytes t').symm), compare_beBytes]
  rfl

theorem fromBeBytes_beBytes (t : UInt64) : fromBeBytes (beBytes t) = t := by
  have hfold : ∀ digits : List Nat, (∀ d ∈ digits, d < 256) → ∀ n,
      (digits.map UInt8.ofNat).foldl (fun n b => n * 256 + b.toNat) n =
        digits.foldl (fun n d => n * 256 + d) n := by
    intro digits
    induction digits with
    | nil => exact fun _ _ => rfl
    | cons d digits ih =>
      intro hlt n
      have hd : (UInt8.ofNat d).toNat = d := by
        rw [UInt8.toNat_ofNat', Nat.mod_eq_of_lt (hlt d List.mem_cons_self)]
      rw [List.map_cons, List.foldl_cons, List.foldl_cons, hd]
      exact ih (fun d' hd' => hlt d' (List.mem_cons_of_mem d hd')) _
  rw [fromBeBytes, beBytes, hfold (beDigits 256 8 t.toNat) fun d => beDigits_lt (by decide)]
  show UInt64.ofNat (ofDigits 256 (beDigits 256 8 t.toNat)) = t
  rw [ofDigits_beDigits (b := 256) (w := 8) t.toNat_lt, UInt64.ofNat_toNat]

/-- What is written as a row is read as its candidate. -/
theorem decodeEvictionKey_evictionKey (c : ChannelId) (t : UInt64) (a : ArtifactId) :
    decodeEvictionKey (evictionKey c t a) = .ok ⟨t, a⟩ := by
  have hlen : (evictionKey c t a).length = 66 := by
    simp [evictionKey, length_beBytes, a.digest.length_eq]
  have htail : (evictionKey c t a).drop 26 = beBytes t ++ a.digest.bytes := by
    rw [evictionKey, List.drop_left' (ChannelId.length_asKey c)]
  have hdigest : (evictionKey c t a).drop 34 = a.digest.bytes := by
    rw [show 34 = 26 + 8 from rfl, ← List.drop_drop, htail, List.drop_left' (length_beBytes t)]
  rw [decodeEvictionKey, dif_pos hlen]
  have hdeadline : fromBeBytes (((evictionKey c t a).drop 26).take 8) = t := by
    rw [htail, List.take_left' (length_beBytes t), fromBeBytes_beBytes]
  rw [hdeadline]
  exact congrArg (fun a => Except.ok (Candidate.mk t a)) (ArtifactId.ext_bytes hdigest)

/-- **The key layout**: a queue key is read back as what it was written for; the queue keys of a
channel sort by deadline and then by digest; keys of every kind are told apart; and the range of a
channel, whose upper bound is computed without overflow, holds exactly the keys behind its text. -/
theorem key_layout :
    (∀ c t a, decodeEvictionKey (evictionKey c t a) = .ok ⟨t, a⟩) ∧
    (∀ c t a t' a', compare (evictionKey c t a) (evictionKey c t' a') =
      (compare t t').then (compare a.digest.bytes a'.digest.bytes)) ∧
    (∀ c a c' a', artifactKey c a = artifactKey c' a' → c = c' ∧ a = a') ∧
    (∀ c name c' name', referenceKey c name = referenceKey c' name' → c = c' ∧ name = name') ∧
    (∀ c t a c' t' a', evictionKey c t a = evictionKey c' t' a' → c = c' ∧ t = t' ∧ a = a') ∧
    (∀ c : ChannelId, ∃ start last, c.asKey = start ++ [last] ∧
      prefixEnd c.asKey = start ++ [last + 1] ∧ (last + 1).toNat = last.toNat + 1) ∧
    (∀ (c : ChannelId) (k : Bytes), c.asKey.length ≤ k.length →
      (((compare c.asKey k).isLE ∧ compare k (prefixEnd c.asKey) = .lt) ↔ c.asKey <+: k)) := by
  refine ⟨decodeEvictionKey_evictionKey, fun c t a t' a' => compare_evictionKey c t t' a a',
    fun _ _ _ _ => artifactKey_inj.mp, fun _ _ _ _ => referenceKey_inj.mp,
    fun _ _ _ _ _ _ => evictionKey_inj.mp, fun c => ?_, fun c k hk => ?_⟩
  · obtain ⟨last, hlast, hlt⟩ := c.getLast?_asKey
    obtain ⟨start, hstart⟩ := List.getLast?_eq_some_iff.mp hlast
    refine ⟨start, last, hstart, ?_, ?_⟩
    · rw [hstart, prefixEnd, List.dropLast_concat, List.getLast?_concat]
      rfl
    · rw [UInt8.toNat_add]
      show (last.toNat + 1) % 256 = _
      omega
  · rw [← inRange_asKey_iff c hk, inRange, Bool.and_eq_true, beq_iff_eq]

/-! ## Queues -/

/-- Earlier deadlines first, and smaller digests first among equal deadlines. -/
def Candidate.Before (x y : Candidate) : Prop :=
  x.eligibleAt < y.eligibleAt ∨
    x.eligibleAt = y.eligibleAt ∧ compare x.artifact.digest.bytes y.artifact.digest.bytes = .lt

/-- The list holds the rows of the channel in `(eligible_at, digest)` order. -/
structure IsQueue (s : RocksMetadata) (c : ChannelId) (rows : List Candidate) : Prop where
  mem : ∀ candidate, candidate ∈ rows ↔
    s.row c candidate.artifact candidate.eligibleAt = some ()
  ordered : rows.Pairwise Candidate.Before

theorem before_iff_compare {c : ChannelId} {x y : Candidate} :
    x.Before y ↔
      compare (evictionKey c x.eligibleAt x.artifact) (evictionKey c y.eligibleAt y.artifact) =
        .lt := by
  have hdeadline : compare x.eligibleAt y.eligibleAt = .lt ↔ x.eligibleAt < y.eligibleAt :=
    Std.compare_eq_lt
  rw [compare_evictionKey, Ordering.then_eq_lt, Candidate.Before, hdeadline,
    LawfulEqOrd.compare_eq_iff_eq]

namespace RocksMetadata

variable {s : RocksMetadata} {c : ChannelId}

/-- The queue of a channel, as the scan comes to its rows. -/
def queue (s : RocksMetadata) (c : ChannelId) : List Candidate :=
  (scan c.asKey s.eviction.keys).filterMap fun key => (decodeEvictionKey key).toOption

theorem mem_scan {key : Bytes} :
    key ∈ scan c.asKey s.eviction.keys ↔ s.eviction[key]? = some () ∧ c.asKey <+: key := by
  rw [scan_eq_filter ExtTreeMap.ordered_keys, List.mem_filter, ExtTreeMap.mem_keys,
    List.isPrefixOf_iff_prefix, ExtTreeMap.mem_iff_isSome_getElem?, Option.isSome_iff_exists]
  exact and_congr_left fun _ => ⟨fun ⟨u, hu⟩ => hu, fun hrow => ⟨(), hrow⟩⟩

/-- A row of the channel that the scan comes to. -/
theorem RowKeys.of_mem_scan (h : RowKeys s.eviction) {key : Bytes}
    (hkey : key ∈ scan c.asKey s.eviction.keys) : ∃ t a, key = evictionKey c t a := by
  obtain ⟨hrow, hprefix⟩ := mem_scan.mp hkey
  obtain ⟨c', t, a, rfl⟩ := h key hrow
  obtain rfl := ChannelId.eq_of_asKey_prefix hprefix
  exact ⟨t, a, rfl⟩

theorem mem_queue {candidate : Candidate} (h : RowKeys s.eviction) :
    candidate ∈ s.queue c ↔ s.row c candidate.artifact candidate.eligibleAt = some () := by
  rw [queue, List.mem_filterMap]
  constructor
  · rintro ⟨key, hkey, hdecode⟩
    obtain ⟨t, a, rfl⟩ := h.of_mem_scan hkey
    rw [decodeEvictionKey_evictionKey] at hdecode
    cases hdecode
    exact (mem_scan.mp hkey).1
  · intro hrow
    refine ⟨evictionKey c candidate.eligibleAt candidate.artifact, ?_, ?_⟩
    · exact mem_scan.mpr ⟨hrow, List.prefix_append ..⟩
    · rw [decodeEvictionKey_evictionKey]
      rfl

/-- The keys come in the order of the rows. -/
theorem isQueue_queue (h : RowKeys s.eviction) (c : ChannelId) : IsQueue s c (s.queue c) := by
  refine ⟨fun candidate => mem_queue h, ?_⟩
  have hsorted : (scan c.asKey s.eviction.keys).Pairwise fun k k' => compare k k' = .lt := by
    rw [scan_eq_filter ExtTreeMap.ordered_keys]
    exact ExtTreeMap.ordered_keys.filter _
  rw [queue, List.pairwise_filterMap]
  refine hsorted.imp_of_mem ?_
  rintro key key' hkey hkey' hlt x hx y hy
  obtain ⟨t, a, rfl⟩ := h.of_mem_scan hkey
  obtain ⟨t', a', rfl⟩ := h.of_mem_scan hkey'
  rw [decodeEvictionKey_evictionKey] at hx hy
  cases hx
  cases hy
  exact before_iff_compare.mpr hlt

/-- The loop decodes every row it comes to, up to the limit. -/
theorem reclaimLoop_eq {limit : Nat} {keys : List Bytes} {found : List Candidate}
    (hkeys : ∀ key ∈ keys, ∃ t a, key = evictionKey c t a) (hfound : found.length ≤ limit) :
    reclaimLoop c.asKey limit keys found =
      .ok ((found ++ keys.filterMap fun key => (decodeEvictionKey key).toOption).take limit) := by
  induction keys generalizing found with
  | nil => simp [reclaimLoop, List.take_of_length_le hfound]
  | cons key keys ih =>
    obtain ⟨t, a, rfl⟩ := hkeys key List.mem_cons_self
    have hprefix : c.asKey.isPrefixOf (evictionKey c t a) = true :=
      List.isPrefixOf_iff_prefix.mpr (List.prefix_append ..)
    have hdecoded : (evictionKey c t a :: keys).filterMap
          (fun key => (decodeEvictionKey key).toOption) =
        ⟨t, a⟩ :: keys.filterMap fun key => (decodeEvictionKey key).toOption := by
      rw [List.filterMap_cons, decodeEvictionKey_evictionKey]
      rfl
    rw [reclaimLoop, hprefix, decodeEvictionKey_evictionKey, hdecoded]
    by_cases hfull : limit ≤ found.length
    · rw [if_pos (by simpa using hfull), List.take_append_of_le_length hfull,
        List.take_of_length_le hfound]
    · have hroom : (found ++ [Candidate.mk t a]).length ≤ limit := by
        rw [List.length_append, List.length_singleton]
        omega
      rw [if_neg (by simpa using hfull)]
      dsimp only
      rw [ih (fun key hkey => hkeys key (List.mem_cons_of_mem _ hkey)) hroom, List.append_assoc]
      rfl

/-- `reclaim_candidates` returns the first rows of the queue. -/
theorem reclaimCandidates_eq_take (h : RowKeys s.eviction) (c : ChannelId) (limit : Nat) :
    s.reclaimCandidates c limit = .ok ((s.queue c).take limit) := by
  rw [reclaimCandidates_eq_scan, reclaimLoop_eq (fun key => h.of_mem_scan) (Nat.zero_le _)]
  rfl

end RocksMetadata

namespace IsQueue

variable {s : RocksMetadata} {c : ChannelId} {rows rows' : List Candidate}

theorem nodup (h : IsQueue s c rows) : rows.Nodup := by
  refine h.ordered.imp ?_
  rintro x y (hlt | ⟨-, hlt⟩) rfl
  · exact UInt64.lt_irrefl _ hlt
  · rw [ReflOrd.compare_self] at hlt
    cases hlt

/-- The rows have one order. -/
theorem unique (h : IsQueue s c rows) (h' : IsQueue s c rows') : rows = rows' := by
  have hperm : rows.Perm rows' :=
    (List.perm_ext_iff_of_nodup h.nodup h'.nodup).mpr fun x => (h.mem x).trans (h'.mem x).symm
  refine hperm.eq_of_pairwise (fun x y _ _ hxy hyx => ?_) h.ordered h'.ordered
  have hlt := (before_iff_compare (c := c)).mp hxy
  rw [OrientedOrd.eq_swap, (before_iff_compare (c := c)).mp hyx] at hlt
  cases hlt

end IsQueue

end Flywheel
