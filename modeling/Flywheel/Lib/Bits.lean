import Mathlib.Data.Nat.Bitwise

/-!
# Sets of numbers in words

A vector of 64-bit words as a set of positions: `Holds w p` says that bit `p % 64` of word `p / 64`
is set. An access outside the vector fails, as indexing does. `setBit_holds` is the rule for
setting a bit, `getBit_eq` the one for reading it, and neither fails within the vector.
-/

set_option autoImplicit false

namespace Flywheel.Lib

variable {n : Nat}

/-- The mask of a position within its word. -/
def mask (p : Nat) : UInt64 := 1 <<< UInt64.ofNat (p % 64)

theorem toNat_mask (p : Nat) : (mask p).toNat = 2 ^ (p % 64) := by
  have hlt : p % 64 < 64 := Nat.mod_lt p (by decide)
  have hshift : (UInt64.ofNat (p % 64)).toNat = p % 64 := by
    rw [UInt64.toNat_ofNat', Nat.mod_eq_of_lt (by omega)]
  rw [mask, UInt64.toNat_shiftLeft, hshift, Nat.mod_eq_of_lt hlt]
  show (1 <<< (p % 64)) % 2 ^ 64 = _
  rw [Nat.shiftLeft_eq, Nat.one_mul, Nat.mod_eq_of_lt (Nat.pow_lt_pow_right (by decide) hlt)]

theorem and_mask_ne_zero {word : UInt64} {p : Nat} :
    word &&& mask p ≠ 0 ↔ word.toNat.testBit (p % 64) = true := by
  have hzero : (word &&& mask p).toNat = (word.toNat.testBit (p % 64)).toNat * 2 ^ (p % 64) := by
    rw [UInt64.toNat_and, toNat_mask, Nat.and_two_pow]
  rw [ne_eq, ← UInt64.toNat_inj, hzero]
  cases word.toNat.testBit (p % 64) <;> simp

/-- The position is in the set. -/
def Holds (w : Vector UInt64 n) (p : Nat) : Prop :=
  ∃ word, w[p / 64]? = some word ∧ word.toNat.testBit (p % 64) = true

/-- Read a bit. -/
def getBit (w : Vector UInt64 n) (p : Nat) : Option Bool :=
  w[p / 64]?.map fun word => decide (word &&& mask p ≠ 0)

/-- Set a bit. -/
def setBit (w : Vector UInt64 n) (p : Nat) : Option (Vector UInt64 n) :=
  w[p / 64]?.bind fun word =>
    if h : p / 64 < n then some (w.set (p / 64) (word ||| mask p)) else none

theorem getBit_eq {w : Vector UInt64 n} {p : Nat} (hp : p < n * 64) :
    ∃ b, getBit w p = some b ∧ (b = true ↔ Holds w p) := by
  have hlt : p / 64 < n := Nat.div_lt_of_lt_mul (Nat.mul_comm n 64 ▸ hp)
  refine ⟨decide (w[p / 64] &&& mask p ≠ 0), ?_, ?_⟩
  · rw [getBit, Vector.getElem?_eq_getElem hlt, Option.map_some]
  · rw [decide_eq_true_iff, and_mask_ne_zero, Holds, Vector.getElem?_eq_getElem hlt]
    simp

theorem setBit_holds {w : Vector UInt64 n} {p : Nat} (hp : p < n * 64) :
    ∃ w', setBit w p = some w' ∧ ∀ q, Holds w' q ↔ q = p ∨ Holds w q := by
  have hlt : p / 64 < n := Nat.div_lt_of_lt_mul (Nat.mul_comm n 64 ▸ hp)
  refine ⟨w.set (p / 64) (w[p / 64] ||| mask p), ?_, fun q => ?_⟩
  · rw [setBit, Vector.getElem?_eq_getElem hlt, Option.bind_some, dif_pos hlt]
  · rw [Holds, Holds, Vector.getElem?_set]
    by_cases hword : p / 64 = q / 64
    · have hbit : p % 64 = q % 64 ↔ q = p := by omega
      rw [if_pos hword, ← hword, Vector.getElem?_eq_getElem hlt]
      simp only [Option.some.injEq, exists_eq_left', UInt64.toNat_or, Nat.testBit_or, toNat_mask,
        Nat.testBit_two_pow, Bool.or_eq_true, decide_eq_true_eq, hbit]
      exact or_comm
    · have hne : q ≠ p := fun heq => hword (by rw [heq])
      rw [if_neg hword]
      simp [hne]

theorem not_holds_replicate (n p : Nat) : ¬ Holds (Vector.replicate n (0 : UInt64)) p := by
  rintro ⟨word, hword, hbit⟩
  obtain ⟨hlt, hget⟩ := Vector.getElem?_eq_some_iff.mp hword
  rw [← hget, Vector.getElem_replicate] at hbit
  simp at hbit

/-- Set several bits. -/
theorem setBits_holds {w : Vector UInt64 n} {ps : List Nat} (hps : ∀ p ∈ ps, p < n * 64) :
    ∃ w', ps.foldlM setBit w = some w' ∧ ∀ q, Holds w' q ↔ q ∈ ps ∨ Holds w q := by
  induction ps generalizing w with
  | nil => exact ⟨w, rfl, fun q => by simp⟩
  | cons p ps ih =>
    obtain ⟨w₁, hset, hw₁⟩ := setBit_holds (w := w) (hps p List.mem_cons_self)
    obtain ⟨w', hrest, hw'⟩ := ih (w := w₁) fun q hq => hps q (List.mem_cons_of_mem p hq)
    refine ⟨w', ?_, fun q => ?_⟩
    · rw [List.foldlM_cons, hset]
      exact hrest
    · rw [hw', hw₁, List.mem_cons]
      exact or_left_comm.trans or_assoc.symm

/-- Whether all bits are set, up to the first that is not. -/
def allBits (w : Vector UInt64 n) : List Nat → Option Bool
  | [] => some true
  | p :: ps => do if ← getBit w p then allBits w ps else some false

theorem allBits_eq {w : Vector UInt64 n} {ps : List Nat} (hps : ∀ p ∈ ps, p < n * 64) :
    ∃ b, allBits w ps = some b ∧ (b = true ↔ ∀ p ∈ ps, Holds w p) := by
  induction ps with
  | nil => exact ⟨true, rfl, by simp⟩
  | cons p ps ih =>
    obtain ⟨b, hget, hb⟩ := getBit_eq (w := w) (hps p List.mem_cons_self)
    obtain ⟨all, hrest, hall⟩ := ih fun q hq => hps q (List.mem_cons_of_mem p hq)
    cases b with
    | true =>
      refine ⟨all, ?_, ?_⟩
      · rw [allBits, hget]
        exact hrest
      · rw [hall]
        simp [hb.mp rfl]
    | false =>
      refine ⟨false, ?_, ?_⟩
      · rw [allBits, hget]
        rfl
      · have hnot : ¬ Holds w p := fun h => Bool.false_ne_true (hb.mpr h)
        simp [hnot]

end Flywheel.Lib
