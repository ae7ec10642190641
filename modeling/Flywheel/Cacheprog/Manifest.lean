import Flywheel.Cacheprog.Protocol
import Flywheel.Lib.Ordered

/-!
# The session manifest (`manifest.rs`, `merge_manifest` of `cacheprog/session.rs`)

A helper merges what its build has used into the manifest under the session's label
(`mergeManifest`): it drops what has not been seen for two weeks, inserts what was used, and evicts
the oldest above the cap. If no more than the cap have been seen since some time, none of these is
evicted (`get_evict_of_kept`).
-/

set_option autoImplicit false

namespace Flywheel.Cacheprog

open Lib Std

/-! ## The manifest -/

def manifestVersion : UInt32 := 1

def manifestMaxEntries : Nat := 32 * 1024

def manifestMaxAgeSeconds : UInt64 := 14 * 24 * 60 * 60

structure Manifest where
  version : UInt32
  entries : Family ManifestEntry

structure UsedEntry where
  output : Bytes
  size : UInt64

/-- The order of the pairs of a time and an action. -/
def compareAge : UInt64 × Bytes → UInt64 × Bytes → Ordering :=
  compareLex (compareOn Prod.fst) (compareOn Prod.snd)

instance : TransCmp compareAge := inferInstanceAs (TransCmp (compareLex _ _))

/-- The actions, those seen longest ago first. -/
def byAge (entries : Family ManifestEntry) : List (UInt64 × Bytes) :=
  (entries.toList.map fun pair => (pair.2.lastSeen, pair.1)).mergeSort fun a b =>
    (compareAge a b).isLE

/-- Evict the oldest entries above a cap. -/
def evict (cap : Nat) (entries : Family ManifestEntry) : Family ManifestEntry :=
  if cap < entries.size then
    ((byAge entries).take (entries.size - cap)).foldl (fun entries pair => entries.delete pair.2)
      entries
  else entries

/-- Insert what a build has used; the order is that of a hash map. -/
def insertUsed (now : UInt64) (used : List (Bytes × UsedEntry)) (entries : Family ManifestEntry) :
    Family ManifestEntry :=
  used.foldl
    (fun entries pair => entries.put pair.1 ⟨pair.2.output, pair.2.size, now⟩) entries

/-- `retain`: what was seen within the last two weeks. -/
def retain (now : UInt64) (entries : Family ManifestEntry) : Family ManifestEntry :=
  eraseWhere (fun _ entry => !(saturatingSub now entry.lastSeen ≤ manifestMaxAgeSeconds)) entries

def storedEntries (stored : Option Manifest) : Family ManifestEntry :=
  (stored.map (·.entries)).getD ∅

def mergeManifest (stored : Option Manifest) (used : List (Bytes × UsedEntry)) (now : UInt64) :
    Manifest where
  version := manifestVersion
  entries := evict manifestMaxEntries (insertUsed now used (retain now (storedEntries stored)))

/-! ## What the merge keeps -/

section

variable {entries : Family ManifestEntry} {action : Bytes} {entry : ManifestEntry}

theorem get_foldl_delete (evicted : List (UInt64 × Bytes)) (entries : Family ManifestEntry) :
    (evicted.foldl (fun entries pair => entries.delete pair.2) entries)[action]? =
      if action ∈ evicted.map Prod.snd then none else entries[action]? := by
  induction evicted generalizing entries with
  | nil => simp
  | cons pair evicted ih =>
    rw [List.foldl_cons, ih, Family.get_delete, List.map_cons]
    by_cases hkey : pair.2 = action
    · simp [hkey]
    · have hcons : action ∈ pair.2 :: evicted.map Prod.snd ↔ action ∈ evicted.map Prod.snd := by
        rw [List.mem_cons]
        exact or_iff_right (Ne.symm hkey)
      rw [if_neg hkey]
      simp only [hcons]

theorem get_of_evict {cap : Nat} (h : (evict cap entries)[action]? = some entry) :
    entries[action]? = some entry := by
  rw [evict] at h
  split at h
  · rw [get_foldl_delete] at h
    split at h
    · cases h
    · exact h
  · exact h

theorem mem_byAge {pair : UInt64 × Bytes} :
    pair ∈ byAge entries ↔ ∃ entry, entries[pair.2]? = some entry ∧ entry.lastSeen = pair.1 := by
  rw [byAge, List.mem_mergeSort, List.mem_map]
  constructor
  · rintro ⟨⟨action, entry⟩, hmem, rfl⟩
    exact ⟨entry, ExtTreeMap.mem_toList_iff_getElem?_eq_some.mp hmem, rfl⟩
  · rintro ⟨entry, hentry, hseen⟩
    exact ⟨(pair.2, entry), ExtTreeMap.mem_toList_iff_getElem?_eq_some.mpr hentry,
      Prod.ext hseen rfl⟩

theorem length_byAge : (byAge entries).length = entries.size := by
  rw [byAge, List.length_mergeSort, List.length_map, ExtTreeMap.length_toList]

theorem nodup_byAge : ((byAge entries).map Prod.snd).Nodup := by
  have hperm := (List.mergeSort_perm (entries.toList.map fun pair => (pair.2.lastSeen, pair.1))
    fun a b => (compareAge a b).isLE).map Prod.snd
  -- Sorting changes the order only, and a map has every key once.
  refine hperm.nodup_iff.mpr ?_
  rw [List.map_map]
  refine List.pairwise_map.mpr (ExtTreeMap.distinct_keys_toList.imp ?_)
  intro a b hne heq
  exact hne (by rw [show a.1 = b.1 from heq, compare_self])

theorem pairwise_byAge :
    (byAge entries).Pairwise fun a b => (compareAge a b).isLE = true := by
  refine List.pairwise_mergeSort (fun _ _ _ => TransCmp.isLE_trans) ?_ _
  intro a b
  have hswap : compareAge b a = (compareAge a b).swap := OrientedCmp.eq_swap
  rw [hswap]
  cases compareAge a b <;> rfl

/-- What comes after in age is not older. -/
theorem le_of_compareAge {a b : UInt64 × Bytes} (h : (compareAge a b).isLE = true) :
    a.1 ≤ b.1 := by
  rw [← isLE_compare]
  rcases Ordering.isLE_then_iff_or.mp h with hlt | ⟨heq, -⟩
  · exact congrArg Ordering.isLE hlt
  · exact congrArg Ordering.isLE heq

/-- If the actions seen since some time are no more than the cap, the others go first. -/
theorem get_evict_of_kept {cap : Nat} {kept : Finset Bytes} {earliest : UInt64}
    (hcard : kept.card ≤ cap)
    (hkept : ∀ action entry, entries[action]? = some entry → earliest ≤ entry.lastSeen →
      action ∈ kept)
    (h : entries[action]? = some entry) (hseen : earliest ≤ entry.lastSeen) :
    (evict cap entries)[action]? = some entry := by
  rw [evict]
  split
  · rename_i hcap
    rw [get_foldl_delete, if_neg, h]
    intro hmem
    obtain ⟨pair, hpair, rfl⟩ := List.mem_map.mp hmem
    obtain ⟨entry', hentry', hseen'⟩ := mem_byAge.mp (List.mem_of_mem_take hpair)
    obtain rfl := Option.some.inj (h.symm.trans hentry')
    -- Evicted, it would have all later ones behind it, and they are kept too: one too many.
    refine not_mem_take_of_card pairwise_byAge nodup_byAge ?_ (hkept _ _ h hseen) ?_ hpair
    · rw [length_byAge]
      omega
    · intro b hb hle
      obtain ⟨entry', hb', hage⟩ := mem_byAge.mp hb
      refine hkept _ _ hb' ?_
      rw [hage]
      exact UInt64.le_trans (hseen' ▸ hseen) (le_of_compareAge hle)
  · exact h

end

end Flywheel.Cacheprog
