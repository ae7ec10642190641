import Mathlib.Algebra.Order.Monoid.Unbundled.WithTop
import Mathlib.Algebra.Order.Ring.Int

/-!
# Binary floating point: comparison and parsing

A value is a number or NaN, and NaN is neither below nor above nor equal to anything
(`Unordered`). Over a linear order the numbers keep their order, so "below" is a strict order that
is not total as soon as there is a number.

`F32` are the values of binary32: the finite ones are whole multiples of 2^-149, the smallest
subnormal, and the infinities lie beyond them. `F32.parse` reads a decimal text: a sign, then `inf`,
`infinity` or `nan` in any case, or digits with a point and an exponent. The result is the nearest
value, ties to even. Zero has one sign here, as comparison does not tell the two apart.
-/

set_option autoImplicit false

namespace Flywheel.Lib

universe u

/-- A number, or what is unordered with everything. -/
inductive Unordered (α : Type u) where
  | nan
  | number (x : α)
  deriving DecidableEq, Repr

namespace Unordered

variable {α : Type u} [LinearOrder α]

/-- Both are numbers and the first is the smaller. -/
def Below : Unordered α → Unordered α → Prop
  | number x, number y => x < y
  | _, _ => False

/-- Both are numbers and they are equal. -/
def Same : Unordered α → Unordered α → Prop
  | number x, number y => x = y
  | _, _ => False

instance : DecidableRel (Below : Unordered α → Unordered α → Prop)
  | number x, number y => inferInstanceAs (Decidable (x < y))
  | nan, _ => .isFalse nofun
  | number _, nan => .isFalse nofun

instance : DecidableRel (Same : Unordered α → Unordered α → Prop)
  | number x, number y => inferInstanceAs (Decidable (x = y))
  | nan, _ => .isFalse nofun
  | number _, nan => .isFalse nofun

@[simp] theorem number_below {x y : α} : Below (number x) (number y) ↔ x < y := Iff.rfl

omit [LinearOrder α] in
@[simp] theorem number_same {x y : α} : Same (number x) (number y) ↔ x = y := Iff.rfl

@[simp] theorem not_nan_below (x : Unordered α) : ¬ Below nan x := nofun

@[simp] theorem not_below_nan (x : Unordered α) : ¬ Below x nan := by
  cases x <;> exact nofun

theorem exists_of_below {x : α} {y : Unordered α} (h : Below (number x) y) :
    ∃ z, y = number z ∧ x < z := by
  cases y with
  | nan => exact absurd h (not_below_nan _)
  | number z => exact ⟨z, rfl, h⟩

theorem Below.trans {x y z : Unordered α} (hxy : Below x y) (hyz : Below y z) : Below x z := by
  cases x with
  | nan => exact absurd hxy (not_nan_below _)
  | number x =>
    obtain ⟨y, rfl, hlt⟩ := exists_of_below hxy
    obtain ⟨z, rfl, hlt'⟩ := exists_of_below hyz
    exact hlt.trans hlt'

theorem not_below_self (x : Unordered α) : ¬ Below x x := by
  cases x with
  | nan => exact not_nan_below _
  | number x => exact lt_irrefl x

/-- Into the bounds, one after the other. What is unordered with both stays. -/
def clamp (lo hi x : Unordered α) : Unordered α :=
  let x := if x.Below lo then lo else x
  if hi.Below x then hi else x

end Unordered

/-! ## Binary32 -/

/-- In units of 2^-149. -/
abbrev F32 := Unordered (WithBot (WithTop ℤ))

namespace F32

def zero : F32 := .number 0

def one : F32 := .number ((2 ^ 149 : ℤ) : WithTop ℤ)

/-- The whole number nearest to a fraction, the even one of two. -/
def nearest (num den : ℕ) : ℕ :=
  let low := num / den
  if den < 2 * (num % den) ∨ (2 * (num % den) = den ∧ low % 2 = 1) then low + 1 else low

/-- `mantissa * 10^exponent` rounded to 24 binary digits or to a whole unit, and from 2^128 on to
infinity. -/
def round (mantissa : ℕ) (exponent : ℤ) : WithTop ℕ :=
  let num := mantissa * 2 ^ 149 * 10 ^ exponent.toNat
  let den := 10 ^ (-exponent).toNat
  let unit := 2 ^ ((num / den).log2 + 1 - 24)
  let rounded := nearest num (den * unit) * unit
  if rounded < 2 ^ (149 + 128) then rounded else ⊤

def ofMagnitude (negative : Bool) : WithTop ℕ → F32
  | ⊤ => .number (if negative then ⊥ else ((⊤ : WithTop ℤ) : WithBot (WithTop ℤ)))
  | (n : ℕ) => .number (((if negative then -(n : ℤ) else n : ℤ) : WithTop ℤ))

/-! ## Parsing -/

/-- Whether there is a minus, and what follows the sign. -/
def sign : List Char → Bool × List Char
  | '-' :: text => (true, text)
  | '+' :: text => (false, text)
  | text => (false, text)

def valueOf (digits : List Char) : ℕ := digits.foldl (fun n c => 10 * n + (c.toNat - '0'.toNat)) 0

/-- An exponent that fills the text, or nothing. -/
def exponent : List Char → Option ℤ
  | [] => some 0
  | c :: text =>
    let (negative, digits) := sign text
    if c.toLower = 'e' ∧ digits ≠ [] ∧ digits.all Char.isDigit then
      some (if negative then -(valueOf digits : ℤ) else valueOf digits)
    else none

/-- Digits before or behind a point, and an exponent: the digits as one number, and the power of
ten it is multiplied with. -/
def decimal (text : List Char) : Option (ℕ × ℤ) :=
  let whole := text.takeWhile Char.isDigit
  let rest := text.dropWhile Char.isDigit
  let afterPoint := if rest.head? = some '.' then rest.tail.takeWhile Char.isDigit else []
  let rest := if rest.head? = some '.' then rest.tail.dropWhile Char.isDigit else rest
  if whole ++ afterPoint = [] then none
  else (exponent rest).map fun e => (valueOf (whole ++ afterPoint), e - afterPoint.length)

def parse (text : List Char) : Option F32 :=
  let (negative, text) := sign text
  let word := text.map Char.toLower
  if word = "nan".toList then some .nan
  else if word = "inf".toList ∨ word = "infinity".toList then some (ofMagnitude negative ⊤)
  else (decimal text).map fun (mantissa, e) => ofMagnitude negative (round mantissa e)

example : parse "-1.5E+0".toList = some (.number ((-3 * 2 ^ 148 : ℤ) : WithTop ℤ)) := by
  decide +kernel

end F32

end Flywheel.Lib
