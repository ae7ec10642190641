import Mathlib.Data.List.Sort
import Mathlib.Data.List.Destutter
import Mathlib.Data.Finset.Card
import Mathlib.Order.Monotone.Basic

/-!
# Lists kept in order of a key

A vector that is sorted by a key and then deduplicated is an index: each key occurs once, and
what is kept under a key is the first element that had it.

- `sortByKey`, `dedupByKey`: `sort_by` (stable) and `dedup_by` (drops what equals the element
  kept before it). Together they keep the first element of every key (`findKey_indexByKey`).
- `binarySearchBy`: the halving loop of the standard library. On an index it finds what is
  there (`binarySearchBy_bind`).
- `IsNext S p x`: going up from `p` and around, `x` is the first element of `S`. It stays so in
  every part of `S` that has `x` (`IsNext.subset`).
- `not_mem_take_of_card`: what few come after is not among the first.
- `mem_drop_iff_countP`, `drop_eq_of_sublist`: the last elements of a sorted list, by how many come
  after them, and in a part of the list.
-/

set_option autoImplicit false

namespace Flywheel.Lib

universe u v w

variable {α : Type u} {κ : Type v} [LinearOrder κ] {key : α → κ}

/-! ## Sorting and deduplicating by a key -/

def sortByKey (key : α → κ) (l : List α) : List α := l.insertionSort fun a b => key a ≤ key b

def dedupByKey (key : α → κ) (l : List α) : List α := l.destutter fun a b => key a ≠ key b

def indexByKey (key : α → κ) (l : List α) : List α := dedupByKey key (sortByKey key l)

/-- In order of the key, with no key twice. -/
def StrictlyOrdered (key : α → κ) (l : List α) : Prop := l.Pairwise fun a b => key a < key b

theorem perm_sortByKey (key : α → κ) (l : List α) : (sortByKey key l).Perm l :=
  List.perm_insertionSort _ l

theorem pairwise_sortByKey (key : α → κ) (l : List α) :
    (sortByKey key l).Pairwise fun a b => key a ≤ key b := by
  have htotal : Std.Total fun a b : α => key a ≤ key b := ⟨fun a b => le_total (key a) (key b)⟩
  have htrans : IsTrans α fun a b => key a ≤ key b := ⟨fun _ _ _ => le_trans⟩
  exact List.pairwise_insertionSort _ l

theorem strictlyOrdered_indexByKey (key : α → κ) (l : List α) :
    StrictlyOrdered key (indexByKey key l) := by
  have htrans : IsTrans α fun a b => key a < key b := ⟨fun _ _ _ => lt_trans⟩
  have hne : (indexByKey key l).IsChain fun a b => key a ≠ key b := List.isChain_destutter _ _
  have hle : (indexByKey key l).Pairwise fun a b => key a ≤ key b :=
    (pairwise_sortByKey key l).sublist (List.destutter_sublist _ _)
  refine List.isChain_iff_pairwise.mp (List.isChain_iff_getElem.mpr fun i hi => ?_)
  refine lt_of_le_of_ne ?_ (List.isChain_iff_getElem.mp hne i hi)
  exact List.pairwise_iff_getElem.mp hle i (i + 1) _ _ (Nat.lt_succ_self i)

theorem flatMap_ite {β : Type*} (p : α → Prop) [DecidablePred p] (f : α → List β) (l : List α) :
    (l.flatMap fun a => if p a then f a else []) = (l.filter p).flatMap f := by
  induction l with
  | nil => rfl
  | cons a l ih =>
    rw [List.flatMap_cons, ih]
    by_cases h : p a
    · rw [if_pos h, List.filter_cons_of_pos (by simpa using h), List.flatMap_cons]
    · rw [if_neg h, List.filter_cons_of_neg (by simpa using h), List.nil_append]

/-! ### What is found under a key -/

/-- The first element under a key. -/
def findKey (key : α → κ) (k : κ) (l : List α) : Option α := l.find? fun a => key a = k

theorem findKey_cons (a : α) (l : List α) (k : κ) :
    findKey key k (a :: l) = if key a = k then some a else findKey key k l := by
  by_cases h : key a = k
  · simp [findKey, h]
  · simp [findKey, h]

theorem key_of_findKey {k : κ} {l : List α} {a : α} (h : findKey key k l = some a) :
    key a = k := by
  simpa using List.find?_some h

theorem mem_of_findKey {k : κ} {l : List α} {a : α} (h : findKey key k l = some a) : a ∈ l :=
  List.mem_of_find?_eq_some h

theorem findKey_isSome {k : κ} {l : List α} :
    (findKey key k l).isSome ↔ ∃ a ∈ l, key a = k := by
  simp [findKey]

theorem findKey_eq_none {k : κ} {l : List α} :
    findKey key k l = none ↔ ∀ a ∈ l, key a ≠ k := by
  simp [findKey]

/-- A map that keeps the keys goes through a search. -/
theorem findKey_map {β : Type*} {key' : β → κ} {f : α → β} (hf : ∀ a, key' (f a) = key a)
    (l : List α) (k : κ) : findKey key' k (l.map f) = (findKey key k l).map f := by
  induction l with
  | nil => rfl
  | cons a l ih =>
    rw [List.map_cons, findKey_cons, findKey_cons, hf, ih]
    split <;> rfl

/-- An element goes in front of those with its key, so sorting keeps the first one first. -/
theorem findKey_orderedInsert (a : α) (l : List α) (k : κ) :
    findKey key k (l.orderedInsert (fun a b => key a ≤ key b) a) = findKey key k (a :: l) := by
  induction l with
  | nil => rfl
  | cons b l ih =>
    rw [List.orderedInsert_cons]
    split
    · rfl
    · rename_i hlt
      rw [findKey_cons, ih, findKey_cons, findKey_cons, findKey_cons]
      by_cases hb : key b = k
      · have ha : key a ≠ k := fun ha => hlt (ha.trans hb.symm).le
        rw [if_pos hb, if_neg ha]
        exact (if_pos hb).symm
      · rw [if_neg hb]
        by_cases ha : key a = k
        · rw [if_pos ha, if_pos ha]
        · rw [if_neg ha, if_neg ha]
          exact (if_neg hb).symm

theorem findKey_sortByKey (l : List α) (k : κ) :
    findKey key k (sortByKey key l) = findKey key k l := by
  induction l with
  | nil => rfl
  | cons a l ih =>
    rw [sortByKey, List.insertionSort_cons, findKey_orderedInsert, findKey_cons, findKey_cons]
    rw [sortByKey] at ih
    rw [ih]

theorem findKey_destutter' (a : α) (l : List α) (k : κ) :
    findKey key k (l.destutter' (fun a b => key a ≠ key b) a) = findKey key k (a :: l) := by
  induction l generalizing a with
  | nil => rfl
  | cons b l ih =>
    by_cases hab : key a = key b
    · have hskip : ¬ key a ≠ key b := not_not.mpr hab
      rw [List.destutter'_cons_neg (R := fun a b => key a ≠ key b) l hskip, ih, findKey_cons,
        findKey_cons, findKey_cons]
      by_cases ha : key a = k
      · rw [if_pos ha, if_pos ha]
      · have hb : key b ≠ k := fun hb => ha (hab.trans hb)
        rw [if_neg ha, if_neg ha, if_neg hb]
    · rw [List.destutter'_cons_pos (R := fun a b => key a ≠ key b) l hab, findKey_cons, ih,
        ← findKey_cons]

/-- An index has the first element of every key. -/
@[simp] theorem findKey_indexByKey (l : List α) (k : κ) :
    findKey key k (indexByKey key l) = findKey key k l := by
  rw [← findKey_sortByKey l, indexByKey, dedupByKey]
  cases sortByKey key l with
  | nil => rfl
  | cons a l => exact findKey_destutter' a l k

theorem mem_map_indexByKey {l : List α} {k : κ} :
    k ∈ (indexByKey key l).map key ↔ k ∈ l.map key := by
  rw [List.mem_map, List.mem_map, ← findKey_isSome, ← findKey_isSome, findKey_indexByKey]

namespace StrictlyOrdered

variable {l l' : List α}

theorem cons_iff {a : α} :
    StrictlyOrdered key (a :: l) ↔ (∀ b ∈ l, key a < key b) ∧ StrictlyOrdered key l :=
  List.pairwise_cons

theorem nodup (h : StrictlyOrdered key l) : l.Nodup :=
  h.imp fun hlt heq => absurd (congrArg key heq) (ne_of_lt hlt)

theorem findKey_eq_some (h : StrictlyOrdered key l) {k : κ} {a : α} :
    findKey key k l = some a ↔ a ∈ l ∧ key a = k := by
  constructor
  · intro hfind
    exact ⟨mem_of_findKey hfind, key_of_findKey hfind⟩
  · rintro ⟨hmem, rfl⟩
    induction l with
    | nil => cases hmem
    | cons b l ih =>
      obtain ⟨hlt, hl⟩ := cons_iff.mp h
      rw [findKey_cons]
      rcases List.mem_cons.mp hmem with rfl | hmem
      · exact if_pos rfl
      · rw [if_neg (ne_of_lt (hlt a hmem)), ih hl hmem]

/-- What is found under a key is all there is under it. -/
theorem filter_eq (h : StrictlyOrdered key l) {k : κ} {a : α} (ha : findKey key k l = some a) :
    (l.filter fun b => key b = k) = [a] := by
  induction l with
  | nil => cases ha
  | cons b l ih =>
    obtain ⟨hlt, hl⟩ := cons_iff.mp h
    rw [findKey_cons] at ha
    by_cases hb : key b = k
    · rw [if_pos hb, Option.some.injEq] at ha
      subst ha
      have hrest : (l.filter fun c => key c = k) = [] := by
        rw [List.filter_eq_nil_iff]
        intro c hc
        simpa using fun hck => ne_of_lt (hlt c hc) (hb.trans hck.symm)
      rw [List.filter_cons_of_pos (by simpa using hb), hrest]
    · rw [if_neg hb] at ha
      rw [List.filter_cons_of_neg (by simpa using hb), ih hl ha]

/-- An index is determined by what is found in it. -/
theorem ext (h : StrictlyOrdered key l) (h' : StrictlyOrdered key l')
    (hfind : ∀ k, findKey key k l = findKey key k l') : l = l' := by
  have hmem : ∀ a, a ∈ l ↔ a ∈ l' := by
    intro a
    have hl := h.findKey_eq_some (k := key a) (a := a)
    have hl' := h'.findKey_eq_some (k := key a) (a := a)
    rw [hfind] at hl
    simpa using hl.symm.trans hl'
  have hperm : l.Perm l' := (List.perm_ext_iff_of_nodup h.nodup h'.nodup).mpr hmem
  refine hperm.eq_of_pairwise ?_ h h'
  intro a b _ _ hab hba
  exact absurd (hab.trans hba) (lt_irrefl _)

theorem filter (h : StrictlyOrdered key l) (p : α → Bool) : StrictlyOrdered key (l.filter p) :=
  h.sublist List.filter_sublist

/-- A list that is an index already is its own. -/
theorem indexByKey_eq (h : StrictlyOrdered key l) : indexByKey key l = l :=
  (strictlyOrdered_indexByKey key l).ext h fun k => findKey_indexByKey l k

end StrictlyOrdered

/-! ## Binary search -/

/-- The loop of `binary_search_by` on `size` elements from `base` on. -/
def searchLoop (cmp : Nat → Ordering) : Nat → Nat → Nat → Nat
  | 0, base, _ => base
  | fuel + 1, base, size =>
    if 1 < size then
      let mid := base + size / 2
      searchLoop cmp fuel (if cmp mid = .gt then base else mid) (size - size / 2)
    else base

/-- `binary_search_by`: the index it ends at, if the comparison says equal there. -/
def binarySearchBy (cmp : α → Ordering) (l : List α) : Option Nat :=
  let base := searchLoop (fun i => l[i]?.elim .gt cmp) l.length 0 l.length
  if l[base]?.elim .gt cmp = .eq then some base else none

/-- The loop closes in on a position that the comparisons point to. -/
theorem searchLoop_eq {cmp : Nat → Ordering} {j : Nat} (hbelow : ∀ i, i ≤ j → cmp i ≠ .gt)
    (habove : ∀ i, j < i → cmp i = .gt) {fuel base size : Nat} (hbase : base ≤ j)
    (hsize : j < base + size) (hfuel : size ≤ fuel + 1) : searchLoop cmp fuel base size = j := by
  induction fuel generalizing base size with
  | zero =>
    rw [searchLoop]
    omega
  | succ fuel ih =>
    rw [searchLoop]
    split
    · dsimp only
      by_cases hmid : base + size / 2 ≤ j
      · rw [if_neg (hbelow _ hmid)]
        exact ih hmid (by omega) (by omega)
      · rw [if_pos (habove _ (by omega))]
        exact ih hbase (by omega) (by omega)
    · omega

/-- On an index, the search finds the element of a key that is there. -/
theorem binarySearchBy_of_getElem? {l : List α} (h : StrictlyOrdered key l) {j : Nat} {a : α}
    (ha : l[j]? = some a) : binarySearchBy (fun b => compare (key b) (key a)) l = some j := by
  obtain ⟨hj, hget⟩ := List.getElem?_eq_some_iff.mp ha
  have hpair := List.pairwise_iff_getElem.mp h
  have hloop : searchLoop (fun i => l[i]?.elim .gt fun b => compare (key b) (key a)) l.length 0
      l.length = j := by
    refine searchLoop_eq ?_ ?_ (Nat.zero_le j) (by omega) (Nat.le_succ _)
    · intro i hi
      have hil : i < l.length := Nat.lt_of_le_of_lt hi hj
      rw [List.getElem?_eq_getElem hil, Option.elim_some, Ne, compare_gt_iff_gt, not_lt, ← hget]
      rcases Nat.lt_or_eq_of_le hi with hlt | rfl
      · exact le_of_lt (hpair i j hil hj hlt)
      · exact le_refl _
    · intro i hi
      by_cases hil : i < l.length
      · rw [List.getElem?_eq_getElem hil, Option.elim_some, compare_gt_iff_gt, ← hget]
        exact hpair j i hj hil hi
      · rw [List.getElem?_eq_none (Nat.le_of_not_lt hil), Option.elim_none]
  unfold binarySearchBy
  dsimp only
  rw [hloop, ha, Option.elim_some, compare_eq_iff_eq.mpr rfl, if_pos rfl]

/-- What the search returns has the key, whatever the list. -/
theorem getElem?_of_binarySearchBy {l : List α} {k : κ} {j : Nat}
    (h : binarySearchBy (fun b => compare (key b) k) l = some j) :
    ∃ a, l[j]? = some a ∧ key a = k := by
  unfold binarySearchBy at h
  dsimp only at h
  split at h
  · rename_i heq
    cases h
    cases hget : l[searchLoop (fun i => l[i]?.elim .gt fun b => compare (key b) k) l.length 0
        l.length]? with
    | none =>
      rw [hget] at heq
      cases heq
    | some a =>
      rw [hget, Option.elim_some, compare_eq_iff_eq] at heq
      exact ⟨a, rfl, heq⟩
  · cases h

/-- On an index, the binary search is a search. -/
theorem binarySearchBy_bind {l : List α} (h : StrictlyOrdered key l) (k : κ) :
    (binarySearchBy (fun b => compare (key b) k) l).bind (fun j => l[j]?) = findKey key k l := by
  cases hfind : findKey key k l with
  | none =>
    rw [Option.bind_eq_none_iff]
    intro j hj
    obtain ⟨a, ha, hkey⟩ := getElem?_of_binarySearchBy hj
    exact absurd hkey (findKey_eq_none.mp hfind a (List.mem_of_getElem? ha))
  | some a =>
    obtain ⟨j, hj⟩ := List.getElem?_of_mem (mem_of_findKey hfind)
    have hsearch := binarySearchBy_of_getElem? h hj
    rw [key_of_findKey hfind] at hsearch
    rw [hsearch, Option.bind_some, hj]

/-- Changing an index in place where the search ends changes the elements of that key. -/
theorem modify_of_binarySearchBy {l : List α} (h : StrictlyOrdered key l) {k : κ} {j : Nat}
    (hj : binarySearchBy (fun b => compare (key b) k) l = some j) (f : α → α) :
    l.modify j f = l.map fun a => if key a = k then f a else a := by
  obtain ⟨a, ha, hkey⟩ := getElem?_of_binarySearchBy hj
  apply List.ext_getElem?
  intro i
  rw [List.getElem?_modify, List.getElem?_map]
  cases hi : l[i]? with
  | none => rfl
  | some b =>
    by_cases hij : j = i
    · subst hij
      rw [ha, Option.some.injEq] at hi
      subst hi
      simp [hkey]
    · have hkb : key b ≠ k := by
        intro hkb
        have hsearch := binarySearchBy_of_getElem? h hi
        rw [hkb, hj, Option.some.injEq] at hsearch
        exact hij hsearch
      simp [hij, hkb]

/-! ## The next element around a circle -/

section Next

variable {π : Type w} [LinearOrder π]

/-- Going up from `p` and around, `x` is the first element of `S`; ties go to the lesser. -/
def IsNext (pos : κ → π) (S : Set κ) (p : π) (x : κ) : Prop :=
  x ∈ S ∧ ((p ≤ pos x ∧ ∀ y ∈ S, p ≤ pos y → x ≤ y) ∨
    ((∀ y ∈ S, pos y < p) ∧ ∀ y ∈ S, x ≤ y))

variable {pos : κ → π} {S S' : Set κ} {p : π} {x y : κ}

theorem IsNext.mem (h : IsNext pos S p x) : x ∈ S := h.1

theorem IsNext.unique (hx : IsNext pos S p x) (hy : IsNext pos S p y) : x = y := by
  obtain ⟨hxS, hx⟩ := hx
  obtain ⟨hyS, hy⟩ := hy
  rcases hx with ⟨hpx, hx⟩ | ⟨hlow, hx⟩
  · rcases hy with ⟨hpy, hy⟩ | ⟨hlow, -⟩
    · exact le_antisymm (hx y hyS hpy) (hy x hxS hpx)
    · exact absurd (hlow x hxS) (not_lt.mpr hpx)
  · rcases hy with ⟨hpy, -⟩ | ⟨-, hy⟩
    · exact absurd (hlow y hyS) (not_lt.mpr hpy)
    · exact le_antisymm (hx y hyS) (hy x hxS)

/-- Taking other elements away does not move what is next. -/
theorem IsNext.subset (h : IsNext pos S p x) (hsub : S' ⊆ S) (hx : x ∈ S') :
    IsNext pos S' p x := by
  refine ⟨hx, ?_⟩
  rcases h.2 with ⟨hp, hleast⟩ | ⟨hlow, hleast⟩
  · exact .inl ⟨hp, fun y hy => hleast y (hsub hy)⟩
  · exact .inr ⟨fun y hy => hlow y (hsub hy), fun y hy => hleast y (hsub hy)⟩

/-- A map that keeps order and positions keeps what is next. -/
theorem IsNext.image {κ' : Type*} [LinearOrder κ'] (pos' : κ' → π) {f : κ → κ'}
    (hmono : MonotoneOn f S) (hpos : ∀ y ∈ S, pos' (f y) = pos y) (h : IsNext pos S p x) :
    IsNext pos' (f '' S) p (f x) := by
  refine ⟨Set.mem_image_of_mem f h.mem, ?_⟩
  rcases h.2 with ⟨hp, hleast⟩ | ⟨hlow, hleast⟩
  · refine .inl ⟨(hpos x h.mem).symm ▸ hp, ?_⟩
    rintro _ ⟨y, hy, rfl⟩ hpy
    exact hmono h.mem hy (hleast y hy (hpos y hy ▸ hpy))
  · refine .inr ⟨?_, ?_⟩
    · rintro _ ⟨y, hy, rfl⟩
      exact (hpos y hy).symm ▸ hlow y hy
    · rintro _ ⟨y, hy, rfl⟩
      exact hmono h.mem hy (hleast y hy)

/-- `partition_point` of a slice that `below` partitions. -/
def partitionPoint (below : α → Bool) (l : List α) : Nat := (l.takeWhile below).length

/-- At the partition point is the first element that is not below, if there is one. -/
theorem getElem?_partitionPoint (below : α → Bool) (l : List α) :
    l[partitionPoint below l]? = l.find? fun a => !below a := by
  induction l with
  | nil => rfl
  | cons a l ih =>
    cases h : below a with
    | true =>
      rw [partitionPoint, List.takeWhile_cons_of_pos h, List.find?_cons_of_neg (by simp [h]), ← ih]
      rfl
    | false =>
      have hneg : ¬ below a = true := by simp [h]
      rw [partitionPoint, List.takeWhile_cons_of_neg hneg, List.find?_cons_of_pos (by simp [h])]
      rfl

theorem partitionPoint_eq_length {below : α → Bool} {l : List α}
    (h : ∀ a ∈ l, below a = true) : partitionPoint below l = l.length := by
  induction l with
  | nil => rfl
  | cons a l ih =>
    have ih := ih fun b hb => h b (List.mem_cons_of_mem a hb)
    rw [partitionPoint] at ih ⊢
    rw [List.takeWhile_cons_of_pos (h a List.mem_cons_self), List.length_cons, ih,
      List.length_cons]

theorem partitionPoint_lt_length {below : α → Bool} {l : List α} {a : α}
    (h : l[partitionPoint below l]? = some a) : partitionPoint below l < l.length :=
  (List.getElem?_eq_some_iff.mp h).1

/-- The element at the partition point, or else the first one, is the next. -/
theorem isNext_partitionPoint {l : List α} (hsorted : l.Pairwise fun a b => key a ≤ key b) (p : π)
    {a : α} (ha : l[partitionPoint (fun b => pos (key b) < p) l % l.length]? = some a) :
    IsNext pos {k | ∃ b ∈ l, key b = k} p (key a) := by
  refine ⟨⟨a, List.mem_of_getElem? ha, rfl⟩, ?_⟩
  have hpoint := getElem?_partitionPoint (fun b => decide (pos (key b) < p)) l
  cases hfind : l.find? fun b => !decide (pos (key b) < p) with
  | none =>
    -- all positions are below: the partition point is the length, and the search wraps
    have hlow : ∀ b ∈ l, pos (key b) < p := by simpa using hfind
    rw [partitionPoint_eq_length (by simpa using hlow), Nat.mod_self] at ha
    refine .inr ⟨?_, ?_⟩
    · rintro _ ⟨b, hb, rfl⟩
      exact hlow b hb
    · rintro _ ⟨b, hb, rfl⟩
      cases l with
      | nil => cases hb
      | cons c l =>
        cases ha
        rcases List.mem_cons.mp hb with rfl | hb
        · exact le_refl _
        · exact (List.pairwise_cons.mp hsorted).1 b hb
  | some c =>
    rw [hfind] at hpoint
    rw [Nat.mod_eq_of_lt (partitionPoint_lt_length hpoint), hpoint] at ha
    cases ha
    obtain ⟨hc, before, after, rfl, hbefore⟩ := List.find?_eq_some_iff_append.mp hfind
    refine .inl ⟨by simpa using hc, ?_⟩
    rintro _ ⟨b, hb, rfl⟩ hpb
    rcases List.mem_append.mp hb with hb | hb
    · exact absurd hpb (by simpa using hbefore b hb)
    · have htail := (List.pairwise_append.mp hsorted).2.1
      rcases List.mem_cons.mp hb with rfl | hb
      · exact le_refl _
      · exact (List.pairwise_cons.mp htail).1 b hb

end Next

/-! ## The front of a sorted list -/

/-- What few come after is not among the first: if `a`, and all that do not come before it, have
their keys in a set of at most as many as are left when `n` are taken, `a` is not taken. -/
theorem not_mem_take_of_card {κ : Type v} {key : α → κ} {le : α → α → Prop}
    {l : List α} {kept : Finset κ} {a : α} {n : Nat} (hsorted : l.Pairwise le)
    (hkeys : (l.map key).Nodup) (hcard : kept.card ≤ l.length - n) (ha : key a ∈ kept)
    (hafter : ∀ b ∈ l, le a b → key b ∈ kept) : a ∉ l.take n := by
  intro hmem
  have hsplit : (l.take n ++ l.drop n).Pairwise le := by rwa [List.take_append_drop]
  have hnodup : ((l.take n).map key ++ (l.drop n).map key).Nodup := by
    rwa [← List.map_append, List.take_append_drop]
  obtain ⟨-, hdrop, hapart⟩ := List.nodup_append.mp hnodup
  -- `a` and what is left are one too many.
  have hcons : (key a :: (l.drop n).map key).Nodup := by
    refine List.nodup_cons.mpr ⟨fun hleft => ?_, hdrop⟩
    exact hapart _ (List.mem_map_of_mem hmem) _ hleft rfl
  have hsubset : ∀ k ∈ key a :: (l.drop n).map key, k ∈ kept := by
    intro k hk
    rcases List.mem_cons.mp hk with rfl | hk
    · exact ha
    · obtain ⟨b, hb, rfl⟩ := List.mem_map.mp hk
      exact hafter b (List.mem_of_mem_drop hb) ((List.pairwise_append.mp hsplit).2.2 a hmem b hb)
  have hle : (key a :: (l.drop n).map key).length ≤ kept.card := by
    classical
    rw [← List.toFinset_card_of_nodup hcons]
    exact Finset.card_le_card fun k hk => hsubset k (List.mem_toFinset.mp hk)
  rw [List.length_cons, List.length_map, List.length_drop] at hle
  omega

/-! ## The end of a sorted list -/

section Last

variable {lt : α → α → Prop} {l l' : List α} {a : α} {n : Nat}

/-- What is left when the first `n` are taken away has fewer elements after it than are left. -/
theorem mem_drop_iff_countP [DecidableRel lt] (hasymm : ∀ a b, lt a b → ¬ lt b a)
    (h : l.Pairwise lt) (ha : a ∈ l) (hn : n ≤ l.length) :
    a ∈ l.drop n ↔ (l.countP fun b => lt a b) < l.length - n := by
  have hirrefl : ∀ a, ¬ lt a a := fun a haa => hasymm a a haa haa
  induction l generalizing n with
  | nil => cases ha
  | cons b l ih =>
    obtain ⟨hb, hl⟩ := List.pairwise_cons.mp h
    cases n with
    | zero =>
      have hcount : ((b :: l).countP fun c => lt a c) < (b :: l).length :=
        List.countP_lt_length_iff.mpr ⟨a, ha, by simpa using hirrefl a⟩
      simpa [ha] using hcount
    | succ n =>
      rw [List.length_cons, Nat.succ_le_succ_iff] at hn
      rw [List.drop_succ_cons, List.length_cons, Nat.succ_sub_succ]
      rcases List.mem_cons.mp ha with rfl | ha
      · have hcount : ((a :: l).countP fun c => lt a c) = l.length := by
          rw [List.countP_cons_of_neg (by simpa using hirrefl a), List.countP_eq_length]
          exact fun c hc => decide_eq_true (hb c hc)
        have hnot : a ∉ l.drop n := fun hmem => hirrefl a (hb a (List.mem_of_mem_drop hmem))
        rw [hcount]
        exact iff_of_false hnot (by omega)
      · rw [List.countP_cons_of_neg (by simpa using hasymm b a (hb a ha))]
        exact ih hl ha hn

/-- Taking others away from a list without duplicates leaves its last elements the last. -/
theorem drop_eq_of_sublist (hnodup : l.Nodup) (hsub : l'.Sublist l)
    (hkept : ∀ a ∈ l.drop n, a ∈ l') : l'.drop (l'.length - (l.length - n)) = l.drop n := by
  rw [← List.take_append_drop n l] at hsub hnodup
  obtain ⟨front, back, rfl, hfront, hback⟩ := List.sublist_append_iff.mp hsub
  obtain ⟨-, hdrop, hapart⟩ := List.nodup_append.mp hnodup
  have hsubset : l.drop n ⊆ back := by
    intro a ha
    rcases List.mem_append.mp (hkept a ha) with hmem | hmem
    · exact absurd rfl (hapart a (hfront.subset hmem) a ha)
    · exact hmem
  have hlength : (l.drop n).length = l.length - n := List.length_drop
  obtain rfl := hback.eq_of_length_le (List.Nodup.subperm hdrop hsubset).length_le
  rw [List.length_append, hlength, Nat.add_sub_cancel, List.drop_left]

end Last

end Flywheel.Lib
