import Flywheel.Lib.Keys

/-!
# Below a prefix

What two ordered families have in common below a key prefix, and the forward scan that reads
it: start at the first key that is not less than the prefix and stop at the first one that
does not start with it. Keys that start with a prefix lie next to each other in
byte-lexicographic order (`prefix_of_between`), so the scan finds exactly them
(`scan_eq_filter`) and depends on nothing else (`AgreeBelow.scan_eq`).
-/

set_option autoImplicit false

namespace Flywheel.Lib

open Std

/-! ## Order and prefixes -/

theorem compare_ne_lt_of_prefix {p k : List UInt8} (h : p <+: k) : compare k p ≠ .lt := by
  induction p generalizing k with
  | nil => cases k <;> simp [List.compare_cons_nil]
  | cons x p ih =>
    cases k with
    | nil => simp at h
    | cons y k =>
      obtain ⟨rfl, htail⟩ := List.cons_prefix_cons.mp h
      rw [List.compare_cons_cons, ReflOrd.compare_self]
      exact ih htail

/-- Between a prefix and a key that starts with it there are only keys that start with it. -/
theorem prefix_of_between {p k k' : List UInt8} (hp : compare k p ≠ .lt)
    (hk : compare k k' = .lt) (h : p <+: k') : p <+: k := by
  induction p generalizing k k' with
  | nil => exact List.nil_prefix
  | cons x p ih =>
    cases k' with
    | nil => simp at h
    | cons z k' =>
      obtain ⟨rfl, htail⟩ := List.cons_prefix_cons.mp h
      cases k with
      | nil => exact absurd List.compare_nil_cons hp
      | cons y k =>
        rw [List.compare_cons_cons] at hp hk
        cases hy : compare y x with
        | lt => simp [hy] at hp
        | gt => simp [hy] at hk
        | eq =>
          obtain rfl : y = x := LawfulEqOrd.eq_of_compare hy
          rw [hy] at hp hk
          exact List.cons_prefix_cons.mpr ⟨rfl, ih hp hk htail⟩

/-! ## Scans -/

/-- The keys a forward scan from `p` visits before it leaves the prefix. -/
def scan (p : List UInt8) (keys : List (List UInt8)) : List (List UInt8) :=
  (keys.dropWhile fun k => compare k p == .lt).takeWhile p.isPrefixOf

theorem takeWhile_eq_filter {p : List UInt8} {keys : List (List UInt8)}
    (hsorted : keys.Pairwise fun k k' => compare k k' = .lt)
    (hle : ∀ k ∈ keys, compare k p ≠ .lt) :
    keys.takeWhile p.isPrefixOf = keys.filter p.isPrefixOf := by
  induction keys with
  | nil => rfl
  | cons k keys ih =>
    obtain ⟨hk, hsorted⟩ := List.pairwise_cons.mp hsorted
    have ih := ih hsorted fun k' hk' => hle k' (List.mem_cons_of_mem k hk')
    cases hstarts : p.isPrefixOf k with
    | true => rw [List.takeWhile_cons_of_pos hstarts, List.filter_cons_of_pos hstarts, ih]
    | false =>
      have hnone : keys.filter p.isPrefixOf = [] := by
        refine List.filter_eq_nil_iff.mpr fun k' hk' h => ?_
        have := prefix_of_between (hle k List.mem_cons_self) (hk k' hk')
          (List.isPrefixOf_iff_prefix.mp h)
        rw [List.isPrefixOf_iff_prefix.mpr this] at hstarts
        cases hstarts
      have hneg : ¬ p.isPrefixOf k = true := by simp [hstarts]
      rw [List.takeWhile_cons_of_neg hneg, List.filter_cons_of_neg hneg, hnone]

/-- A scan of sorted keys finds exactly those that start with the prefix. -/
theorem scan_eq_filter {p : List UInt8} {keys : List (List UInt8)}
    (hsorted : keys.Pairwise fun k k' => compare k k' = .lt) :
    scan p keys = keys.filter p.isPrefixOf := by
  induction keys with
  | nil => rfl
  | cons k keys ih =>
    have hcons := List.pairwise_cons.mp hsorted
    unfold scan
    by_cases hlt : compare k p = .lt
    · have hstarts : ¬ p.isPrefixOf k = true := fun h =>
        compare_ne_lt_of_prefix (List.isPrefixOf_iff_prefix.mp h) hlt
      rw [List.dropWhile_cons_of_pos (by simp [hlt]), List.filter_cons_of_neg hstarts]
      exact ih hcons.2
    · rw [List.dropWhile_cons_of_neg (by simp [hlt])]
      refine takeWhile_eq_filter hsorted fun k' hk' h => ?_
      rcases List.mem_cons.mp hk' with rfl | hk'
      · exact hlt h
      · exact hlt (TransCmp.lt_trans (hcons.1 k' hk') h)

/-! ## Families that agree below a prefix -/

namespace Family

variable {V : Type}

/-- The two families have the same entries below `p`. -/
def AgreeBelow (p : List UInt8) (f g : Family V) : Prop := ∀ k, p <+: k → f[k]? = g[k]?

namespace AgreeBelow

variable {p : List UInt8} {f g h : Family V}

theorem refl (p : List UInt8) (f : Family V) : AgreeBelow p f f := fun _ _ => rfl

theorem symm (hfg : AgreeBelow p f g) : AgreeBelow p g f := fun k hk => (hfg k hk).symm

theorem trans (hfg : AgreeBelow p f g) (hgh : AgreeBelow p g h) : AgreeBelow p f h :=
  fun k hk => (hfg k hk).trans (hgh k hk)

/-- The same write to both. -/
theorem put (hfg : AgreeBelow p f g) (k : List UInt8) (v : V) :
    AgreeBelow p (f.put k v) (g.put k v) := fun k' hk' => by
  rw [get_put, get_put, hfg k' hk']

theorem delete (hfg : AgreeBelow p f g) (k : List UInt8) :
    AgreeBelow p (f.delete k) (g.delete k) := fun k' hk' => by
  rw [get_delete, get_delete, hfg k' hk']

theorem deleteRange (hfg : AgreeBelow p f g) (lo hi : List UInt8) :
    AgreeBelow p (f.deleteRange lo hi) (g.deleteRange lo hi) := fun k' hk' => by
  rw [get_deleteRange, get_deleteRange, hfg k' hk']

/-- A write outside the prefix. -/
theorem put_left {k : List UInt8} (hk : ¬ p <+: k) (f : Family V) (v : V) :
    AgreeBelow p (f.put k v) f := fun k' hk' => by
  rw [get_put, if_neg (fun (h : k = k') => hk (h ▸ hk'))]

theorem delete_left {k : List UInt8} (hk : ¬ p <+: k) (f : Family V) :
    AgreeBelow p (f.delete k) f := fun k' hk' => by
  rw [get_delete, if_neg (fun (h : k = k') => hk (h ▸ hk'))]

theorem deleteRange_left {lo hi : List UInt8}
    (hrange : ∀ k, p <+: k → inRange lo hi k = false) (f : Family V) :
    AgreeBelow p (f.deleteRange lo hi) f := fun k hk => by
  rw [get_deleteRange, hrange k hk]
  rfl

/-- A scan of the prefix sees the same keys in both. -/
theorem scan_eq (hfg : AgreeBelow p f g) : scan p f.keys = scan p g.keys := by
  have hfilter : (f.filter fun k _ => p.isPrefixOf k) = g.filter fun k _ => p.isPrefixOf k := by
    refine ExtTreeMap.ext_getElem? fun k => ?_
    rw [ExtTreeMap.getElem?_filter', ExtTreeMap.getElem?_filter']
    cases hk : p.isPrefixOf k with
    | true => rw [hfg k (List.isPrefixOf_iff_prefix.mp hk)]
    | false => simp
  rw [scan_eq_filter ExtTreeMap.ordered_keys, scan_eq_filter ExtTreeMap.ordered_keys,
    ← ExtTreeMap.keys_filter_key, ← ExtTreeMap.keys_filter_key, hfilter]

end AgreeBelow

end Family

end Flywheel.Lib
