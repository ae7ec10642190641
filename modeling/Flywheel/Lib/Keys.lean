import Std.Data.ExtTreeMap
import Mathlib.Data.Nat.ModEq
import Mathlib.Data.List.Infix
import Mathlib.Tactic.Ring

/-!
# Byte keys: fixed-width numerals, prefix ranges, ordered families

Storage keys and path components are built from numerals of a fixed width:
base-32 text of a 128-bit identifier, big-endian bytes of a 64-bit deadline, two
hexadecimal digits for each byte. All of them are `beDigits b w n`, the `w` least
significant base-`b` digits of `n`, most significant first. A numeral determines
its number modulo `b ^ w` (`beDigits_inj_mod`), so it is injective on numbers
below `b ^ w`.

An ordered store deletes by key range. The keys that start with a prefix `q ++ [x]` are,
among keys at least as long, exactly those in the range up to `q ++ [x + 1]`, as long as
`x + 1` does not wrap (`mem_range_iff_prefix`). `Family V` is the ordered map such a store
keeps: a lookup lemma for each of its three writes.
-/

set_option autoImplicit false

namespace Flywheel.Lib

open Std

/-! ## Numerals -/

/-- The `w` least significant base-`b` digits of `n`, most significant first. -/
def beDigits (b : Nat) : Nat → Nat → List Nat
  | 0, _ => []
  | w + 1, n => n / b ^ w % b :: beDigits b w n

@[simp] theorem length_beDigits (b w n : Nat) : (beDigits b w n).length = w := by
  induction w with
  | zero => rfl
  | succ w ih => simp [beDigits, ih]

theorem beDigits_lt {b : Nat} (hb : 0 < b) {w n d : Nat} (h : d ∈ beDigits b w n) :
    d < b := by
  induction w with
  | zero => simp [beDigits] at h
  | succ w ih =>
    rcases List.mem_cons.mp h with rfl | h
    · exact Nat.mod_lt _ hb
    · exact ih h

/-- Equal numerals are numerals of numbers equal modulo `b ^ w`. -/
theorem beDigits_inj_mod {b w m n : Nat} (h : beDigits b w m = beDigits b w n) :
    m % b ^ w = n % b ^ w := by
  induction w with
  | zero => simp [Nat.mod_one]
  | succ w ih =>
    obtain ⟨hhead, htail⟩ := List.cons.inj h
    rw [Nat.mod_pow_succ, Nat.mod_pow_succ, ih htail, hhead]

theorem beDigits_inj {b w m n : Nat} (hm : m < b ^ w) (hn : n < b ^ w)
    (h : beDigits b w m = beDigits b w n) : m = n := by
  have := beDigits_inj_mod h
  rwa [Nat.mod_eq_of_lt hm, Nat.mod_eq_of_lt hn] at this

/-- A numeral written in symbols that tell the digits below `b` apart determines its
number. -/
theorem map_beDigits_inj {α : Type} {b w m n : Nat} {f : Nat → α} (hb : 0 < b)
    (hf : ∀ x y, x < b → y < b → f x = f y → x = y) (hm : m < b ^ w) (hn : n < b ^ w)
    (h : (beDigits b w m).map f = (beDigits b w n).map f) : m = n := by
  refine beDigits_inj hm hn ?_
  have hlen := (length_beDigits b w m).trans (length_beDigits b w n).symm
  refine List.ext_getElem hlen fun i h₁ h₂ => ?_
  refine hf _ _ (beDigits_lt hb (List.getElem_mem h₁)) (beDigits_lt hb (List.getElem_mem h₂)) ?_
  have := congrArg (fun l => l[i]?) h
  simpa [List.getElem?_eq_getElem h₁, List.getElem?_eq_getElem h₂] using this

/-- Big-endian bytes. -/
theorem map_ofNat_beDigits_inj {w m n : Nat} (hm : m < 256 ^ w) (hn : n < 256 ^ w)
    (h : (beDigits 256 w m).map UInt8.ofNat = (beDigits 256 w n).map UInt8.ofNat) : m = n := by
  refine map_beDigits_inj (by decide) ?_ hm hn h
  intro x y hx hy hxy
  have hnat := congrArg UInt8.toNat hxy
  simpa [Nat.mod_eq_of_lt hx, Nat.mod_eq_of_lt hy] using hnat

/-- The number that a list of digits writes, most significant first. -/
def ofDigits (b : Nat) (digits : List Nat) : Nat := digits.foldl (fun n d => n * b + d) 0

theorem foldl_beDigits (b w a n : Nat) :
    (beDigits b w n).foldl (fun n d => n * b + d) a = a * b ^ w + n % b ^ w := by
  induction w generalizing a with
  | zero => simp [beDigits, Nat.mod_one]
  | succ w ih =>
    rw [beDigits, List.foldl_cons, ih, Nat.mod_pow_succ, Nat.pow_succ]
    ring

theorem ofDigits_beDigits {b w n : Nat} (h : n < b ^ w) : ofDigits b (beDigits b w n) = n := by
  rw [ofDigits, foldl_beDigits, Nat.zero_mul, Nat.zero_add, Nat.mod_eq_of_lt h]

/-! ## The order of numerals -/

theorem compare_append {α : Type} [Ord α] {x y u v : List α} (h : x.length = y.length) :
    compare (x ++ u) (y ++ v) = (compare x y).then (compare u v) := by
  induction x generalizing y with
  | nil =>
    rw [List.eq_nil_of_length_eq_zero h.symm]
    rfl
  | cons a x ih =>
    cases y with
    | nil => cases h
    | cons b y =>
      rw [List.cons_append, List.cons_append, List.compare_cons_cons, List.compare_cons_cons,
        ih (Nat.succ.inj h), Ordering.then_assoc]

/-- Symbols in the order of their digits keep the order of numerals. -/
theorem compare_map {α β : Type} [Ord α] [Ord β] {f : α → β} {x y : List α}
    (hf : ∀ a ∈ x, ∀ b ∈ y, compare (f a) (f b) = compare a b) :
    compare (x.map f) (y.map f) = compare x y := by
  induction x generalizing y with
  | nil => cases y <;> rfl
  | cons a x ih =>
    cases y with
    | nil => rfl
    | cons b y =>
      have htail := ih fun a' ha' b' hb' =>
        hf a' (List.mem_cons_of_mem a ha') b' (List.mem_cons_of_mem b hb')
      rw [List.map_cons, List.map_cons, List.compare_cons_cons, List.compare_cons_cons,
        hf a List.mem_cons_self b List.mem_cons_self, htail]

/-- The leading digit decides. -/
theorem compare_leading {b h h' r r' : Nat} (hr : r < b) (hr' : r' < b) :
    compare (r + b * h) (r' + b * h') = (compare h h').then (compare r r') := by
  rcases Nat.lt_trichotomy h h' with hlt | rfl | hgt
  · have hmul : b * h + b ≤ b * h' := Nat.mul_succ b h ▸ Nat.mul_le_mul_left b hlt
    rw [Nat.compare_eq_lt.mpr hlt, Nat.compare_eq_lt.mpr (by omega)]
    rfl
  · rcases Nat.lt_trichotomy r r' with hlt | rfl | hgt
    · rw [Nat.compare_eq_lt.mpr hlt, Nat.compare_eq_lt.mpr (by omega), Nat.compare_eq_eq.mpr rfl]
      rfl
    · rw [Nat.compare_eq_eq.mpr rfl, Nat.compare_eq_eq.mpr rfl, Nat.compare_eq_eq.mpr rfl]
      rfl
    · rw [Nat.compare_eq_gt.mpr hgt, Nat.compare_eq_gt.mpr (by omega), Nat.compare_eq_eq.mpr rfl]
      rfl
  · have hmul : b * h' + b ≤ b * h := Nat.mul_succ b h' ▸ Nat.mul_le_mul_left b hgt
    rw [Nat.compare_eq_gt.mpr hgt, Nat.compare_eq_gt.mpr (by omega)]
    rfl

/-- Numerals of one width compare as their numbers do. -/
theorem compare_beDigits {b : Nat} (hb : 0 < b) (w m n : Nat) :
    compare (beDigits b w m) (beDigits b w n) = compare (m % b ^ w) (n % b ^ w) := by
  induction w with
  | zero => simp [beDigits, Nat.mod_one]
  | succ w ih =>
    have hpow : 0 < b ^ w := Nat.pow_pos hb
    rw [beDigits, beDigits, List.compare_cons_cons, ih, Nat.mod_pow_succ, Nat.mod_pow_succ,
      compare_leading (Nat.mod_lt m hpow) (Nat.mod_lt n hpow)]

/-! ## Prefix ranges -/

/-- Whether `k` lies in the half-open range from `lo` to `hi`, in byte-lexicographic order. -/
def inRange (lo hi k : List UInt8) : Bool :=
  (compare lo k).isLE && compare k hi == .lt

/-- A range whose bounds share their first byte is a range of the keys behind that byte. -/
theorem inRange_cons (y z : UInt8) (lo hi k : List UInt8) :
    inRange (y :: lo) (y :: hi) (z :: k) = true ↔ y = z ∧ inRange lo hi k = true := by
  unfold inRange
  simp only [List.compare_cons_cons, Bool.and_eq_true, beq_iff_eq]
  by_cases hyz : y = z
  · subst hyz
    simp
  · rcases h : compare y z with _ | _ | _
    · have h' : compare z y = .gt := by
        rw [OrientedOrd.eq_swap (a := z), h]
        rfl
      simp [h', hyz]
    · exact absurd (by simpa using h) hyz
    · simp [hyz]

/-- A range that ends one byte above where it starts. -/
theorem inRange_singleton {x : UInt8} (hx : x.toNat < 255) (z : UInt8) (k : List UInt8) :
    inRange [x] [x + 1] (z :: k) = true ↔ x = z := by
  have hsucc : (x + 1).toNat = x.toNat + 1 := by
    rw [UInt8.toNat_add]
    exact Nat.mod_eq_of_lt (by simpa using Nat.succ_lt_succ hx)
  have hlo : (compare [x] (z :: k)).isLE = true ↔ x ≤ z := by
    rw [List.compare_cons_cons]
    cases k <;> simp [Ordering.isLE_then_iff_and, Std.isLE_compare]
  have hhi : compare (z :: k) [x + 1] = .lt ↔ z < x + 1 := by
    rw [List.compare_cons_cons]
    cases k <;> simp [Ordering.then_eq_lt, Std.compare_eq_lt]
  rw [inRange, Bool.and_eq_true, beq_iff_eq, hlo, hhi, UInt8.le_iff_toNat_le,
    UInt8.lt_iff_toNat_lt, hsucc, ← UInt8.toNat_inj]
  omega

/-- Among keys longer than `q`, the range from `q ++ [x]` to `q ++ [x + 1]` holds exactly
those that start with `q ++ [x]`. -/
theorem mem_range_iff_prefix {q : List UInt8} {x : UInt8} (hx : x.toNat < 255)
    {k : List UInt8} (hk : q.length < k.length) :
    inRange (q ++ [x]) (q ++ [x + 1]) k = true ↔ q ++ [x] <+: k := by
  induction q generalizing k with
  | nil =>
    cases k with
    | nil => simp at hk
    | cons z zs => simpa using inRange_singleton hx z zs
  | cons y q ih =>
    cases k with
    | nil => simp at hk
    | cons z zs =>
      rw [List.cons_append, List.cons_append, inRange_cons, ih (by simpa using hk),
        List.cons_prefix_cons]

/-- The bound of a prefix range: the last byte is incremented. -/
def prefixEnd (p : List UInt8) : List UInt8 :=
  p.dropLast ++ (p.getLast?.map (· + 1)).toList

theorem mem_prefixEnd_iff {p : List UInt8} {x : UInt8} (hlast : p.getLast? = some x)
    (hx : x.toNat < 255) {k : List UInt8} (hk : p.length ≤ k.length) :
    inRange p (prefixEnd p) k = true ↔ p <+: k := by
  obtain ⟨q, rfl⟩ := List.getLast?_eq_some_iff.mp hlast
  have hend : prefixEnd (q ++ [x]) = q ++ [x + 1] := by simp [prefixEnd]
  rw [hend]
  exact mem_range_iff_prefix hx (by simpa [Nat.succ_le_iff] using hk)

/-! ## Ordered maps -/

section EraseWhere

universe u v

variable {κ : Type u} {ν : Type v} {cmp : κ → κ → Ordering} [TransCmp cmp]

/-- Erase every entry that meets `p`, one after the other. -/
def eraseWhere (p : κ → ν → Bool) (m : ExtTreeMap κ ν cmp) : ExtTreeMap κ ν cmp :=
  m.toList.foldl (fun acc kv => if p kv.1 kv.2 then acc.erase kv.1 else acc) m

theorem foldl_erase_apply [LawfulEqCmp cmp] (p : κ → ν → Bool) (l : List (κ × ν))
    (acc : ExtTreeMap κ ν cmp) (k : κ) :
    (l.foldl (fun acc kv => if p kv.1 kv.2 then acc.erase kv.1 else acc) acc)[k]? =
      if l.any (fun kv => cmp kv.1 k == .eq && p kv.1 kv.2) then none else acc[k]? := by
  induction l generalizing acc with
  | nil => rfl
  | cons kv l ih =>
    rw [List.foldl_cons, ih, List.any_cons]
    cases hp : p kv.1 kv.2 with
    | true =>
      rw [if_pos rfl, ExtTreeMap.getElem?_erase]
      grind
    | false => grind

theorem eraseWhere_apply [LawfulEqCmp cmp] (p : κ → ν → Bool) (m : ExtTreeMap κ ν cmp) (k : κ) :
    (eraseWhere p m)[k]? = if m[k]?.any (p k) then none else m[k]? := by
  have hany : m.toList.any (fun kv => cmp kv.1 k == .eq && p kv.1 kv.2) = m[k]?.any (p k) := by
    rw [Bool.eq_iff_iff, List.any_eq_true, Option.any_eq_true]
    constructor
    · rintro ⟨⟨k', v⟩, hmem, hkv⟩
      obtain ⟨hk, hp⟩ := Bool.and_eq_true_iff.mp hkv
      obtain rfl : k' = k := LawfulEqCmp.eq_of_compare (beq_iff_eq.mp hk)
      exact ⟨v, ExtTreeMap.mem_toList_iff_getElem?_eq_some.mp hmem, hp⟩
    · rintro ⟨v, hv, hp⟩
      exact ⟨(k, v), ExtTreeMap.mem_toList_iff_getElem?_eq_some.mpr hv, by simpa using hp⟩
  rw [eraseWhere, foldl_erase_apply, hany]

end EraseWhere

/-! ## Ordered families -/

/-- An ordered map from byte keys, as a column family of the store keeps it. -/
abbrev Family (V : Type) : Type := ExtTreeMap (List UInt8) V compare

namespace Family

variable {V : Type}

def put (f : Family V) (k : List UInt8) (v : V) : Family V := f.insert k v

def delete (f : Family V) (k : List UInt8) : Family V := f.erase k

/-- Delete every key from `lo` up to, and excluding, `hi`. -/
def deleteRange (f : Family V) (lo hi : List UInt8) : Family V :=
  eraseWhere (fun k _ => inRange lo hi k) f

@[simp] theorem get_put (f : Family V) (k k' : List UInt8) (v : V) :
    (f.put k v)[k']? = if k = k' then some v else f[k']? := by
  rw [put, ExtTreeMap.getElem?_insert]
  simp

@[simp] theorem get_delete (f : Family V) (k k' : List UInt8) :
    (f.delete k)[k']? = if k = k' then none else f[k']? := by
  rw [delete, ExtTreeMap.getElem?_erase]
  simp

@[simp] theorem get_deleteRange (f : Family V) (lo hi k : List UInt8) :
    (f.deleteRange lo hi)[k]? = if inRange lo hi k then none else f[k]? := by
  rw [deleteRange, eraseWhere_apply]
  cases f[k]? <;> cases inRange lo hi k <;> rfl

/-- No key starts with `p`. -/
def Clear (f : Family V) (p : List UInt8) : Prop := ∀ k, p <+: k → f[k]? = none

variable {f : Family V} {p : List UInt8}

theorem Clear.put (h : f.Clear p) {k : List UInt8} (hk : ¬ p <+: k) (v : V) :
    (f.put k v).Clear p := by
  intro k' hk'
  have hne : k ≠ k' := fun hkk => hk (hkk ▸ hk')
  rw [get_put, if_neg hne, h k' hk']

theorem Clear.delete (h : f.Clear p) (k : List UInt8) : (f.delete k).Clear p := by
  intro k' hk'
  rw [get_delete, h k' hk', ite_self]

theorem Clear.deleteRange (h : f.Clear p) (lo hi : List UInt8) : (f.deleteRange lo hi).Clear p := by
  intro k' hk'
  rw [get_deleteRange, h k' hk', ite_self]

end Family

end Flywheel.Lib
