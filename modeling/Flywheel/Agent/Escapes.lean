import Flywheel.Transport.Http

/-!
# Percent escapes

The router hands a capture to a handler with its percent escapes replaced by the bytes they
stand for (`percentDecode`). Many texts stand for the same bytes: any byte may be escaped or
not, and the letters among the digits of an escape may be small or capital. These choices are
all the freedom there is (`eq_of_escapes`): texts that stand for the same bytes and make
them alike are equal.
-/

set_option autoImplicit false

namespace Flywheel.Agent

open Lib Http

/-! ## Decoding -/

/-- `percent_decode`: an escape is a percent sign with two hexadecimal digits. -/
def percentDecodeBytes : Bytes → Bytes
  | 37 :: x :: y :: rest =>
    match hexValue x, hexValue y with
    | some high, some low => UInt8.ofNat (high * 16 + low) :: percentDecodeBytes rest
    | _, _ => 37 :: percentDecodeBytes (x :: y :: rest)
  | b :: rest => b :: percentDecodeBytes rest
  | [] => []

/-- What the escapes stand for has to be UTF-8. -/
def percentDecode (text : String) : Option String :=
  String.fromUTF8? ⟨(percentDecodeBytes (utf8 text)).toArray⟩

/-- The escapes of a text: which of the bytes it stands for is escaped, and which of the two
digits are small letters. -/
def escapesFrom : Nat → Bytes → List (Nat × Bool × Bool)
  | n, 37 :: x :: y :: rest =>
    match hexValue x, hexValue y with
    | some _, some _ => (n, decide (97 ≤ x), decide (97 ≤ y)) :: escapesFrom (n + 1) rest
    | _, _ => escapesFrom (n + 1) (x :: y :: rest)
  | n, _ :: rest => escapesFrom (n + 1) rest
  | _, [] => []

def escapes (text : String) : List (Nat × Bool × Bool) := escapesFrom 0 (utf8 text)

/-! ## Digits -/

/-- A digit is told by its value and its case. -/
theorem hexValue_inj {x y : UInt8} {d : Nat} (hx : hexValue x = some d)
    (hy : hexValue y = some d) (hcase : decide (97 ≤ x) = decide (97 ≤ y)) : x = y := by
  have hcase := decide_eq_decide.mp hcase
  simp only [UInt8.le_iff_toNat_le, UInt8.reduceToNat] at hcase
  refine UInt8.toNat_inj.mp ?_
  rcases hexValue_cases hx with h | h | h <;> rcases hexValue_cases hy with h' | h' | h' <;> omega

theorem ofNat_digits_inj {a b c d : Nat} (ha : a < 16) (hb : b < 16) (hc : c < 16) (hd : d < 16)
    (h : UInt8.ofNat (a * 16 + b) = UInt8.ofNat (c * 16 + d)) : a = c ∧ b = d := by
  have hnat := congrArg UInt8.toNat h
  rw [UInt8.toNat_ofNat', UInt8.toNat_ofNat', Nat.mod_eq_of_lt (by omega),
    Nat.mod_eq_of_lt (by omega)] at hnat
  omega

/-! ## One byte -/

/-- The first byte does not begin an escape. -/
def Plain (b : UInt8) (bs : Bytes) : Prop :=
  ∀ x y rest, b = 37 → bs = x :: y :: rest → hexValue x = none ∨ hexValue y = none

theorem escaped_or_plain (b : UInt8) (bs : Bytes) :
    (∃ x y rest high low, b = 37 ∧ bs = x :: y :: rest ∧ hexValue x = some high ∧
      hexValue y = some low) ∨ Plain b bs := by
  by_cases hplain : Plain b bs
  · exact .inr hplain
  · unfold Plain at hplain
    push Not at hplain
    obtain ⟨x, y, rest, hb, hbs, hx, hy⟩ := hplain
    obtain ⟨high, hx⟩ := Option.ne_none_iff_exists'.mp hx
    obtain ⟨low, hy⟩ := Option.ne_none_iff_exists'.mp hy
    exact .inl ⟨x, y, rest, high, low, hb, hbs, hx, hy⟩

section

variable {x y b : UInt8} {high low : Nat} {rest bs : Bytes}

theorem decode_escaped (hx : hexValue x = some high) (hy : hexValue y = some low) :
    percentDecodeBytes (37 :: x :: y :: rest) =
      UInt8.ofNat (high * 16 + low) :: percentDecodeBytes rest := by
  simp only [percentDecodeBytes, hx, hy]

theorem escapesFrom_escaped (hx : hexValue x = some high) (hy : hexValue y = some low) (n : Nat) :
    escapesFrom n (37 :: x :: y :: rest) =
      (n, decide (97 ≤ x), decide (97 ≤ y)) :: escapesFrom (n + 1) rest := by
  simp only [escapesFrom, hx, hy]

theorem decode_plain (h : Plain b bs) :
    percentDecodeBytes (b :: bs) = b :: percentDecodeBytes bs := by
  rcases bs with _ | ⟨x, _ | ⟨y, rest⟩⟩
  · simp [percentDecodeBytes]
  · simp [percentDecodeBytes]
  · by_cases hb : b = 37
    · subst hb
      obtain hnone | hnone := h x y rest rfl rfl <;> simp [percentDecodeBytes, hnone]
    · rw [percentDecodeBytes]
      exact fun _ _ _ heq => absurd heq hb

theorem escapesFrom_plain (h : Plain b bs) (n : Nat) :
    escapesFrom n (b :: bs) = escapesFrom (n + 1) bs := by
  rcases bs with _ | ⟨x, _ | ⟨y, rest⟩⟩
  · simp [escapesFrom]
  · simp [escapesFrom]
  · by_cases hb : b = 37
    · subst hb
      obtain hnone | hnone := h x y rest rfl rfl <;> simp [escapesFrom, hnone]
    · rw [escapesFrom]
      exact fun _ _ _ heq => absurd heq hb

end

/-! ## Whole texts -/

/-- Escapes stand no earlier than the text does. -/
theorem le_of_mem_escapesFrom {n : Nat} {bs : Bytes} {m : Nat × Bool × Bool}
    (h : m ∈ escapesFrom n bs) : n ≤ m.1 := by
  match bs with
  | [] => cases h
  | b :: bs =>
    obtain ⟨x, y, rest, high, low, rfl, rfl, hx, hy⟩ | hplain := escaped_or_plain b bs
    · rw [escapesFrom_escaped hx hy] at h
      obtain rfl | h := List.mem_cons.mp h
      · exact Nat.le_refl n
      · exact Nat.le_of_succ_le (le_of_mem_escapesFrom h)
    · rw [escapesFrom_plain hplain] at h
      exact Nat.le_of_succ_le (le_of_mem_escapesFrom h)
  termination_by bs.length

/-- A text with an escape at its first byte and one without are not escaped alike. -/
theorem escapesFrom_ne {n : Nat} {x y : Bool} {rest bs : Bytes} :
    (n, x, y) :: escapesFrom (n + 1) rest ≠ escapesFrom (n + 1) bs := by
  intro h
  have hmem : (n, x, y) ∈ escapesFrom (n + 1) bs := h ▸ List.mem_cons_self
  exact absurd (le_of_mem_escapesFrom hmem) (Nat.not_succ_le_self n)

theorem percentDecodeBytes_eq_nil {bs : Bytes} (h : percentDecodeBytes bs = []) : bs = [] := by
  cases bs with
  | nil => rfl
  | cons b bs =>
    obtain ⟨x, y, rest, high, low, rfl, rfl, hx, hy⟩ | hplain := escaped_or_plain b bs
    · cases (decode_escaped hx hy).symm.trans h
    · cases (decode_plain hplain).symm.trans h

/-- Texts that stand for the same bytes and escape the same of them, with the digits in the
same case, are the same. -/
theorem eq_of_escapesFrom {n : Nat} {as bs : Bytes}
    (hdecode : percentDecodeBytes as = percentDecodeBytes bs)
    (hescapes : escapesFrom n as = escapesFrom n bs) : as = bs := by
  match as, bs with
  | [], [] => rfl
  | [], b :: bs => exact (percentDecodeBytes_eq_nil hdecode.symm).symm
  | a :: as, [] => exact percentDecodeBytes_eq_nil hdecode
  | a :: as, b :: bs =>
    obtain ⟨x, y, as, high, low, rfl, rfl, hx, hy⟩ | ha := escaped_or_plain a as
    · rw [decode_escaped hx hy] at hdecode
      rw [escapesFrom_escaped hx hy] at hescapes
      obtain ⟨x', y', bs, high', low', rfl, rfl, hx', hy'⟩ | hb := escaped_or_plain b bs
      · rw [decode_escaped hx' hy'] at hdecode
        rw [escapesFrom_escaped hx' hy'] at hescapes
        obtain ⟨hbyte, hrest⟩ := List.cons.inj hdecode
        obtain ⟨hcase, hescapes⟩ := List.cons.inj hescapes
        obtain ⟨-, hcase⟩ := Prod.mk.inj hcase
        obtain ⟨hcasex, hcasey⟩ := Prod.mk.inj hcase
        obtain ⟨rfl, rfl⟩ := ofNat_digits_inj (hexValue_lt hx) (hexValue_lt hy) (hexValue_lt hx')
          (hexValue_lt hy') hbyte
        rw [hexValue_inj hx hx' hcasex, hexValue_inj hy hy' hcasey,
          eq_of_escapesFrom hrest hescapes]
      · rw [escapesFrom_plain hb] at hescapes
        exact absurd hescapes escapesFrom_ne
    · rw [decode_plain ha] at hdecode
      rw [escapesFrom_plain ha] at hescapes
      obtain ⟨x', y', bs, high', low', rfl, rfl, hx', hy'⟩ | hb := escaped_or_plain b bs
      · rw [escapesFrom_escaped hx' hy'] at hescapes
        exact absurd hescapes.symm escapesFrom_ne
      · rw [decode_plain hb] at hdecode
        rw [escapesFrom_plain hb] at hescapes
        obtain ⟨rfl, hrest⟩ := List.cons.inj hdecode
        rw [eq_of_escapesFrom hrest hescapes]
  termination_by as.length

theorem eq_of_escapes {s t : String}
    (hdecode : percentDecodeBytes (utf8 s) = percentDecodeBytes (utf8 t))
    (hescapes : escapes s = escapes t) : s = t :=
  toUTF8_inj (eq_of_escapesFrom hdecode hescapes)

/-- No escape reaches over a slash. -/
theorem percentDecodeBytes_slash (as bs : Bytes) :
    percentDecodeBytes (as ++ 47 :: bs) = percentDecodeBytes as ++ 47 :: percentDecodeBytes bs := by
  have hslash : hexValue 47 = none := by decide
  match as with
  | [] => exact decode_plain fun _ _ _ h => absurd h (by decide)
  | a :: as =>
    obtain ⟨x, y, as, high, low, rfl, rfl, hx, hy⟩ | ha := escaped_or_plain a as
    · rw [List.cons_append, List.cons_append, List.cons_append, decode_escaped hx hy,
        decode_escaped hx hy, percentDecodeBytes_slash as bs, List.cons_append]
    · have hwhole : Plain a (as ++ 47 :: bs) := by
        intro x y rest ha37 heq
        rcases as with _ | ⟨c, _ | ⟨d, as⟩⟩
        · exact .inl ((List.cons.inj heq).1 ▸ hslash)
        · exact .inr ((List.cons.inj (List.cons.inj heq).2).1 ▸ hslash)
        · obtain ⟨hc, heq⟩ := List.cons.inj heq
          obtain ⟨hd, -⟩ := List.cons.inj heq
          exact hc ▸ hd ▸ ha c d as ha37 rfl
      rw [List.cons_append, decode_plain hwhole, decode_plain ha, percentDecodeBytes_slash as bs,
        List.cons_append]
  termination_by as.length

/-- Without a percent sign nothing is escaped. -/
theorem percentDecodeBytes_of_not_mem {bs : Bytes} (h : (37 : UInt8) ∉ bs) :
    percentDecodeBytes bs = bs := by
  induction bs with
  | nil => rfl
  | cons b bs ih =>
    have hplain : Plain b bs := fun _ _ _ hb => absurd (hb ▸ List.mem_cons_self) h
    rw [decode_plain hplain, ih fun hmem => h (List.mem_cons_of_mem b hmem)]

/-- What a text decodes to, as bytes. -/
theorem utf8_of_percentDecode {text decoded : String} (h : percentDecode text = some decoded) :
    utf8 decoded = percentDecodeBytes (utf8 text) := by
  unfold percentDecode String.fromUTF8? at h
  split at h
  · cases h
    rw [utf8, toList_toUTF8]
    rfl
  · cases h

end Flywheel.Agent
