import Flywheel.Transport.Http

/-!
# Byte ranges (`parse_range` in `transport/http/mod.rs`)

`parse_range` reads one range of a `Range` header against the length of the representation.
The grammar it is compared with is stated for itself: `ByteRange` is what a header can ask
for, `Spells` how it is written and `ByteRange.Selects` which bytes of a body it means.

The numbers of the source are read by `u64::from_str`, which takes a leading `+` that the
grammar does not have. `Spells` is therefore stated for any notion of numeral: `Numeral` is
that of the grammar, `SignedNumeral` that of the library, and `parseRange` follows the latter
(`parseRange_of_spells`, `spells_of_parseRange`).
-/

set_option autoImplicit false

namespace Flywheel.Http

open Lib

/-! ## The source -/

/-- `HeaderValue::to_str`. -/
def toStr (value : Bytes) : Option String :=
  if value.all fun b => (32 ≤ b && b < 127) || b == 9 then
    some (String.ofList (value.map fun b => Char.ofNat b.toNat))
  else none

theorem headerText_eq (headers : Headers) (name : String) :
    headerText headers name = (headers.lookup name).bind toStr := rfl

inductive RangeSelection where
  | full
  | partialRange (start finish : UInt64)
  | unsatisfiable
  deriving DecidableEq

/-- The number behind the dash, if there is one; `none` is the early return of a full
response. -/
def rangeEnd (start : UInt64) (finish : String) : Option (Option UInt64) :=
  if finish.isEmpty then some none
  else
    match parseU64 finish with
    | none => none
    | some finish => if finish < start then none else some (some finish)

/-- `parse_range` once it has split the range at its dash. -/
def selectRange (start finish : String) (len : UInt64) : RangeSelection :=
  if start.isEmpty then
    match parseU64 finish with
    | none => .full
    | some suffix =>
      if suffix = 0 ∨ len = 0 then .unsatisfiable
      else .partialRange (saturatingSub len suffix) (len - 1)
  else
    match parseU64 start with
    | none => .full
    | some start =>
      match rangeEnd start finish with
      | none => .full
      | some finish =>
        if start ≥ len then .unsatisfiable
        else .partialRange start (min (finish.getD (len - 1)) (len - 1))

def parseRange (value : Option Bytes) (len : UInt64) : RangeSelection :=
  match value.bind toStr with
  | none => .full
  | some value =>
    match stripPrefix "bytes=" value with
    | none => .full
    | some range =>
      if ',' ∈ range.toList then .full
      else
        match cut '-' range with
        | (_, none) => .full
        | (start, some finish) => selectRange start finish len

/-! ## The grammar -/

/-- What a `Range` header asks for: `first-last`, `first-` or `-suffix`. -/
inductive ByteRange where
  | between (first last : Nat)
  | onward (first : Nat)
  | suffix (length : Nat)
  deriving DecidableEq

/-- The number that a text of digits writes. -/
def decimal (digits : String) : Nat := ofDigits 10 (digits.toList.map fun c => c.toNat - 48)

/-- A non-empty text of ASCII digits whose number fits a `u64`. -/
structure Numeral (text : String) (n : Nat) : Prop where
  nonempty : text ≠ ""
  digits : ∀ c ∈ text.toList, c.isDigit = true
  value : decimal text = n
  fits : n < 2 ^ 64

/-- A numeral as `u64::from_str` reads it. -/
def SignedNumeral (text : String) (n : Nat) : Prop :=
  Numeral text n ∨ ∃ digits, text = "+" ++ digits ∧ Numeral digits n

/-- How a range is written, given how numbers are. -/
def Spells (numeral : String → Nat → Prop) (text : String) : ByteRange → Prop
  | .between first last => ∃ a b, text = "bytes=" ++ (a ++ "-" ++ b) ∧
      numeral a first ∧ numeral b last ∧ first ≤ last
  | .onward first => ∃ a, text = "bytes=" ++ (a ++ "-" ++ "") ∧ numeral a first
  | .suffix length => ∃ b, text = "bytes=" ++ ("" ++ "-" ++ b) ∧ numeral b length

/-- The header value is a single range of the grammar. -/
def Denotes (value : Bytes) (range : ByteRange) : Prop :=
  ∃ text, toStr value = some text ∧ Spells Numeral text range

/-- The bytes of a body of length `len` that a range selects. -/
def ByteRange.Selects (len i : Nat) : ByteRange → Prop
  | .between first last => first ≤ i ∧ i ≤ last ∧ i < len
  | .onward first => first ≤ i ∧ i < len
  | .suffix length => len ≤ i + length ∧ i < len

/-- An interval that selects the bytes of a range. -/
def RangeSelection.Names (selection : RangeSelection) (range : ByteRange) (len : UInt64) : Prop :=
  ∃ start finish, selection = .partialRange start finish ∧ start ≤ finish ∧ finish < len ∧
    (finish - start + 1).toNat = finish.toNat - start.toNat + 1 ∧
    ∀ i, start.toNat ≤ i ∧ i ≤ finish.toNat ↔ range.Selects len.toNat i

/-- A selection is what the grammar says about the header value and the length. -/
structure RangeSelection.Follows (selection : RangeSelection) (value : Bytes) (len : UInt64) :
    Prop where
  full : (∀ range, ¬ Denotes value range) → selection = .full
  unsatisfiable : ∀ range, Denotes value range →
    (selection = .unsatisfiable ↔ ∀ i, ¬ range.Selects len.toNat i)
  selected : ∀ range, Denotes value range → (∃ i, range.Selects len.toNat i) →
    selection.Names range len

/-- The header value is a range but for a `+` before a number. -/
def Signed (value : Bytes) : Prop :=
  ∃ text range, toStr value = some text ∧ Spells SignedNumeral text range ∧ '+' ∈ text.toList

/-! ## Numerals -/

theorem Numeral.not_mem {text : String} {n : Nat} (h : Numeral text n) {c : Char}
    (hc : c.isDigit = false) : c ∉ text.toList := by
  intro hmem
  rw [h.digits c hmem] at hc
  cases hc

theorem SignedNumeral.nonempty {text : String} {n : Nat} (h : SignedNumeral text n) :
    text ≠ "" := by
  rcases h with h | ⟨digits, rfl, h⟩
  · exact h.nonempty
  · intro hempty
    simpa using congrArg String.toList hempty

theorem SignedNumeral.fits {text : String} {n : Nat} (h : SignedNumeral text n) : n < 2 ^ 64 := by
  rcases h with h | ⟨digits, -, h⟩
  · exact h.fits
  · exact h.fits

/-- Neither the dash nor the comma occurs in a numeral. -/
theorem SignedNumeral.not_mem {text : String} {n : Nat} (h : SignedNumeral text n) {c : Char}
    (hc : c.isDigit = false) (hplus : c ≠ '+') : c ∉ text.toList := by
  rcases h with h | ⟨digits, rfl, h⟩
  · exact h.not_mem hc
  · intro hmem
    rw [String.toList_append, List.mem_append] at hmem
    rcases hmem with hmem | hmem
    · exact hplus (by simpa using hmem)
    · exact h.not_mem hc hmem

/-- A sign may stand before the digits, once. -/
theorem signedNumeral_iff {text : String} {n : Nat} :
    SignedNumeral text n ↔ Numeral ((stripPrefix "+" text).getD text) n := by
  cases hstrip : stripPrefix "+" text with
  | some digits =>
    have htext := eq_append_of_stripPrefix hstrip
    constructor
    · rintro (h | ⟨digits', htext', h⟩)
      · have hplus : '+' ∈ text.toList := by simp [htext]
        exact absurd hplus (h.not_mem (by decide))
      · rw [htext', stripPrefix_append] at hstrip
        rwa [← Option.some.inj hstrip]
    · intro h
      exact .inr ⟨digits, htext, h⟩
  | none =>
    constructor
    · rintro (h | ⟨digits, rfl, h⟩)
      · exact h
      · rw [stripPrefix_append] at hstrip
        cases hstrip
    · exact fun h => .inl h

theorem parseU64_eq_some {text : String} {n : UInt64} :
    parseU64 text = some n ↔ SignedNumeral text n.toNat := by
  rw [signedNumeral_iff, parseU64]
  generalize (stripPrefix "+" text).getD text = digits
  have hbad : (digits.isEmpty || !digits.all Char.isDigit) = true ↔
      digits = "" ∨ ¬ ∀ c ∈ digits.toList, c.isDigit = true := by
    simp [String.all_bool_eq]
  split
  · rename_i h
    refine iff_of_false (by simp) fun hnumeral => ?_
    rcases hbad.mp h with hempty | hdigits
    · exact hnumeral.nonempty hempty
    · exact hdigits hnumeral.digits
  · rename_i h
    obtain ⟨hempty, hdigits⟩ := not_or.mp (mt hbad.mpr h)
    show (if decimal digits < 2 ^ 64 then some (UInt64.ofNat (decimal digits)) else none) =
      some n ↔ _
    split
    · rename_i hlt
      have hvalue : (UInt64.ofNat (decimal digits)).toNat = decimal digits :=
        UInt64.toNat_ofNat_of_lt' hlt
      constructor
      · intro heq
        cases heq
        exact ⟨hempty, not_not.mp hdigits, hvalue.symm, by rwa [hvalue]⟩
      · intro hnumeral
        rw [hnumeral.value, UInt64.ofNat_toNat]
    · rename_i hlt
      refine iff_of_false (by simp) fun hnumeral => hlt ?_
      rw [hnumeral.value]
      exact hnumeral.fits

theorem SignedNumeral.parseU64 {text : String} {n : Nat} (h : SignedNumeral text n) :
    parseU64 text = some (UInt64.ofNat n) := by
  rw [parseU64_eq_some, UInt64.toNat_ofNat_of_lt' h.fits]
  exact h

/-! ## What is parsed -/

/-- The selection that a range asks for. -/
def ByteRange.select (len : UInt64) : ByteRange → RangeSelection
  | .between first last =>
    if UInt64.ofNat first ≥ len then .unsatisfiable
    else .partialRange (UInt64.ofNat first) (min (UInt64.ofNat last) (len - 1))
  | .onward first =>
    if UInt64.ofNat first ≥ len then .unsatisfiable
    else .partialRange (UInt64.ofNat first) (min (len - 1) (len - 1))
  | .suffix length =>
    if UInt64.ofNat length = 0 ∨ len = 0 then .unsatisfiable
    else .partialRange (saturatingSub len (UInt64.ofNat length)) (len - 1)

/-- The text that stands before and behind the dash of a range. -/
def Written (range : ByteRange) (start finish : String) : Prop :=
  match range with
  | .between first last => SignedNumeral start first ∧ SignedNumeral finish last ∧ first ≤ last
  | .onward first => SignedNumeral start first ∧ finish = ""
  | .suffix length => start = "" ∧ SignedNumeral finish length

theorem spells_iff {text : String} {range : ByteRange} :
    Spells SignedNumeral text range ↔
      ∃ start finish, text = "bytes=" ++ (start ++ "-" ++ finish) ∧ Written range start finish := by
  cases range with
  | between first last => exact Iff.rfl
  | onward first =>
    constructor
    · rintro ⟨a, rfl, h⟩
      exact ⟨a, "", rfl, h, rfl⟩
    · rintro ⟨a, _, rfl, h, rfl⟩
      exact ⟨a, rfl, h⟩
  | suffix length =>
    constructor
    · rintro ⟨b, rfl, h⟩
      exact ⟨"", b, rfl, rfl, h⟩
    · rintro ⟨_, b, rfl, rfl, h⟩
      exact ⟨b, rfl, h⟩

theorem Written.not_mem {range : ByteRange} {start finish : String}
    (h : Written range start finish) {c : Char} (hc : c.isDigit = false) (hplus : c ≠ '+') :
    c ∉ start.toList ∧ c ∉ finish.toList := by
  cases range with
  | between first last => exact ⟨h.1.not_mem hc hplus, h.2.1.not_mem hc hplus⟩
  | onward first => exact ⟨h.1.not_mem hc hplus, by simp [h.2]⟩
  | suffix length => exact ⟨by simp [h.1], h.2.not_mem hc hplus⟩

theorem selectRange_of_written {range : ByteRange} {start finish : String}
    (h : Written range start finish) (len : UInt64) :
    selectRange start finish len = range.select len := by
  cases range with
  | between first last =>
    obtain ⟨hstart, hfinish, hle⟩ := h
    have horder : ¬ UInt64.ofNat last < UInt64.ofNat first := by
      rw [UInt64.lt_iff_toNat_lt, UInt64.toNat_ofNat_of_lt' hstart.fits,
        UInt64.toNat_ofNat_of_lt' hfinish.fits]
      omega
    simp [selectRange, rangeEnd, hstart.nonempty, hfinish.nonempty, hstart.parseU64,
      hfinish.parseU64, horder, ByteRange.select]
  | onward first =>
    obtain ⟨hstart, rfl⟩ := h
    simp [selectRange, rangeEnd, hstart.nonempty, hstart.parseU64, ByteRange.select]
  | suffix length =>
    obtain ⟨rfl, hfinish⟩ := h
    simp [selectRange, hfinish.parseU64, ByteRange.select]

/-- Behind the dash only a range leads to anything but the full response. -/
theorem written_of_selectRange {start finish : String} {len : UInt64}
    (h : selectRange start finish len ≠ .full) : ∃ range, Written range start finish := by
  unfold selectRange at h
  split at h
  · rename_i hstart
    split at h
    · exact absurd rfl h
    · rename_i suffix hsuffix
      exact ⟨.suffix suffix.toNat, String.isEmpty_iff.mp hstart, parseU64_eq_some.mp hsuffix⟩
  · split at h
    · exact absurd rfl h
    · rename_i first hfirst
      unfold rangeEnd at h
      split at h
      · exact absurd rfl h
      · rename_i finish' hend
        split at hend
        · rename_i hempty
          exact ⟨.onward first.toNat, parseU64_eq_some.mp hfirst, String.isEmpty_iff.mp hempty⟩
        · split at hend
          · cases hend
          · rename_i last hlast
            split at hend
            · cases hend
            · rename_i hle
              refine ⟨.between first.toNat last.toNat, parseU64_eq_some.mp hfirst,
                parseU64_eq_some.mp hlast, ?_⟩
              exact UInt64.le_iff_toNat_le.mp (UInt64.not_lt.mp hle)

theorem parseRange_of_spells {value : Bytes} {text : String} {range : ByteRange} {len : UInt64}
    (htext : toStr value = some text) (h : Spells SignedNumeral text range) :
    parseRange (some value) len = range.select len := by
  obtain ⟨start, finish, rfl, hwritten⟩ := spells_iff.mp h
  obtain ⟨hcomma, hcomma'⟩ := hwritten.not_mem (c := ',') (by decide) (by decide)
  have hdash := (hwritten.not_mem (c := '-') (by decide) (by decide)).1
  have hno : ',' ∉ (start ++ "-" ++ finish).toList := by simp [hcomma, hcomma']
  have hcut : cut '-' (start ++ "-" ++ finish) = (start, some finish) := cut_append hdash finish
  simp only [parseRange, Option.bind_some, htext, stripPrefix_append, if_neg hno, hcut]
  exact selectRange_of_written hwritten len

theorem spells_of_parseRange {value : Bytes} {len : UInt64}
    (h : parseRange (some value) len ≠ .full) :
    ∃ text range, toStr value = some text ∧ Spells SignedNumeral text range := by
  unfold parseRange at h
  rw [Option.bind_some] at h
  split at h
  · exact absurd rfl h
  · rename_i text htext
    split at h
    · exact absurd rfl h
    · rename_i rest hrest
      split at h
      · exact absurd rfl h
      · split at h
        · exact absurd rfl h
        · rename_i start finish hcut
          obtain ⟨range, hwritten⟩ := written_of_selectRange h
          refine ⟨text, range, htext, spells_iff.mpr ⟨start, finish, ?_, hwritten⟩⟩
          rw [eq_append_of_stripPrefix hrest, eq_append_of_cut hcut]
          rfl

/-! ## What is selected -/

theorem Spells.signed {text : String} {range : ByteRange} (h : Spells Numeral text range) :
    Spells SignedNumeral text range := by
  cases range with
  | between first last =>
    obtain ⟨a, b, htext, ha, hb, hle⟩ := h
    exact ⟨a, b, htext, .inl ha, .inl hb, hle⟩
  | onward first =>
    obtain ⟨a, htext, ha⟩ := h
    exact ⟨a, htext, .inl ha⟩
  | suffix length =>
    obtain ⟨b, htext, hb⟩ := h
    exact ⟨b, htext, .inl hb⟩

/-- A range of the grammar has no sign. -/
theorem Spells.not_plus {text : String} {range : ByteRange} (h : Spells Numeral text range) :
    '+' ∉ text.toList := by
  cases range with
  | between first last =>
    obtain ⟨a, b, rfl, ha, hb, -⟩ := h
    simp [ha.not_mem (c := '+') (by decide), hb.not_mem (c := '+') (by decide)]
  | onward first =>
    obtain ⟨a, rfl, ha⟩ := h
    simp [ha.not_mem (c := '+') (by decide)]
  | suffix length =>
    obtain ⟨b, rfl, hb⟩ := h
    simp [hb.not_mem (c := '+') (by decide)]

theorem toNat_min (a b : UInt64) : (min a b).toNat = min a.toNat b.toNat := by
  show (if a ≤ b then a else b).toNat = _
  split
  · rename_i h
    rw [UInt64.le_iff_toNat_le] at h
    omega
  · rename_i h
    rw [UInt64.le_iff_toNat_le] at h
    omega

/-- The length of an interval of a body fits a `u64`. -/
theorem toNat_interval {start finish len : UInt64} (hle : start ≤ finish) (hlt : finish < len) :
    (finish - start + 1).toNat = finish.toNat - start.toNat + 1 := by
  have hbound := len.toNat_lt
  rw [UInt64.lt_iff_toNat_lt] at hlt
  rw [UInt64.toNat_add, UInt64.toNat_sub_of_le _ _ hle, Nat.mod_eq_of_lt]
  · rfl
  · show finish.toNat - start.toNat + 1 < _
    omega

theorem names_of_toNat {start finish len : UInt64} {range : ByteRange}
    (hle : start.toNat ≤ finish.toNat) (hlt : finish.toNat < len.toNat)
    (hselects : ∀ i, start.toNat ≤ i ∧ i ≤ finish.toNat ↔ range.Selects len.toNat i) :
    (RangeSelection.partialRange start finish).Names range len := by
  have hle : start ≤ finish := UInt64.le_iff_toNat_le.mpr hle
  have hlt : finish < len := UInt64.lt_iff_toNat_lt.mpr hlt
  exact ⟨start, finish, rfl, hle, hlt, toNat_interval hle hlt, hselects⟩

/-- What is selected is there, and is what the range means. -/
theorem Written.select_cases {range : ByteRange} {start finish : String}
    (h : Written range start finish) (len : UInt64) :
    (range.select len = .unsatisfiable ∧ ∀ i, ¬ range.Selects len.toNat i) ∨
      (range.select len).Names range len := by
  have hpred : 0 < len.toNat → (len - 1).toNat = len.toNat - 1 := fun hpos =>
    UInt64.toNat_sub_of_le _ _ (UInt64.le_iff_toNat_le.mpr hpos)
  cases range with
  | between first last =>
    obtain ⟨hfirst, hlast, hle⟩ := h
    have hfirst := UInt64.toNat_ofNat_of_lt' hfirst.fits
    have hlast := UInt64.toNat_ofNat_of_lt' hlast.fits
    by_cases hin : UInt64.ofNat first ≥ len
    · refine .inl ⟨by rw [ByteRange.select, if_pos hin], fun i hi => ?_⟩
      have hin := UInt64.le_iff_toNat_le.mp hin
      obtain ⟨hi, -, hlen⟩ := hi
      omega
    · right
      rw [ByteRange.select, if_neg hin]
      have hin := UInt64.lt_iff_toNat_lt.mp (UInt64.not_le.mp hin)
      have hmin := toNat_min (UInt64.ofNat last) (len - 1)
      have hpred := hpred (by omega)
      refine names_of_toNat (by omega) (by omega) fun i => ?_
      show _ ↔ first ≤ i ∧ i ≤ last ∧ i < len.toNat
      omega
  | onward first =>
    obtain ⟨hfirst, -⟩ := h
    have hfirst := UInt64.toNat_ofNat_of_lt' hfirst.fits
    by_cases hin : UInt64.ofNat first ≥ len
    · refine .inl ⟨by rw [ByteRange.select, if_pos hin], fun i hi => ?_⟩
      have hin := UInt64.le_iff_toNat_le.mp hin
      obtain ⟨hi, hlen⟩ := hi
      omega
    · right
      rw [ByteRange.select, if_neg hin]
      have hin := UInt64.lt_iff_toNat_lt.mp (UInt64.not_le.mp hin)
      have hmin := toNat_min (len - 1) (len - 1)
      have hpred := hpred (by omega)
      refine names_of_toNat (by omega) (by omega) fun i => ?_
      show _ ↔ first ≤ i ∧ i < len.toNat
      omega
  | suffix length =>
    obtain ⟨-, hlength⟩ := h
    have hlength := UInt64.toNat_ofNat_of_lt' hlength.fits
    have hzero : ∀ n : UInt64, n = 0 ↔ n.toNat = 0 := fun n => UInt64.toNat_inj.symm
    by_cases hnone : UInt64.ofNat length = 0 ∨ len = 0
    · refine .inl ⟨by rw [ByteRange.select, if_pos hnone], fun i hi => ?_⟩
      rw [hzero, hzero] at hnone
      obtain ⟨hi, hlen⟩ := hi
      omega
    · right
      rw [ByteRange.select, if_neg hnone]
      rw [hzero, hzero] at hnone
      have hsub := toNat_saturatingSub len (UInt64.ofNat length)
      have hpred := hpred (by omega)
      refine names_of_toNat (by omega) (by omega) fun i => ?_
      show _ ↔ len.toNat ≤ i + length ∧ i < len.toNat
      omega

theorem Names.selects {selection : RangeSelection} {range : ByteRange} {len : UInt64}
    (h : selection.Names range len) : ∃ i, range.Selects len.toNat i := by
  obtain ⟨start, finish, -, hle, -, -, hselects⟩ := h
  exact ⟨start.toNat, (hselects _).mp ⟨le_refl _, UInt64.le_iff_toNat_le.mp hle⟩⟩

theorem Names.ne_unsatisfiable {selection : RangeSelection} {range : ByteRange} {len : UInt64}
    (h : selection.Names range len) : selection ≠ .unsatisfiable := by
  obtain ⟨start, finish, rfl, -⟩ := h
  exact RangeSelection.noConfusion

/-- Whatever a range asks for, it is not ignored. -/
theorem Written.select_ne_full {range : ByteRange} {start finish : String}
    (h : Written range start finish) (len : UInt64) : range.select len ≠ .full := by
  rcases h.select_cases len with ⟨hnone, -⟩ | ⟨start, finish, hsome, -⟩
  · rw [hnone]
    exact RangeSelection.noConfusion
  · rw [hsome]
    exact RangeSelection.noConfusion

/-- A selected interval lies within the body. -/
theorem parseRange_bounds {value : Option Bytes} {len start finish : UInt64}
    (h : parseRange value len = .partialRange start finish) : start ≤ finish ∧ finish < len := by
  cases value with
  | none => cases h
  | some value =>
    have hfull : parseRange (some value) len ≠ .full := by
      rw [h]
      exact RangeSelection.noConfusion
    obtain ⟨text, range, htext, hspells⟩ := spells_of_parseRange hfull
    obtain ⟨_, _, -, hwritten⟩ := spells_iff.mp hspells
    rw [parseRange_of_spells htext hspells] at h
    rcases hwritten.select_cases len with ⟨hnone, -⟩ | ⟨s, f, hnames, hle, hlt, -⟩
    · cases hnone.symm.trans h
    · cases hnames.symm.trans h
      exact ⟨hle, hlt⟩

/-- Without a sign the library reads what the grammar writes. -/
theorem Spells.of_signed {text : String} {range : ByteRange} (h : Spells SignedNumeral text range)
    (hplus : '+' ∉ text.toList) : Spells Numeral text range := by
  have hnumeral : ∀ part : String, (∀ c ∈ part.toList, c ∈ text.toList) → ∀ n,
      SignedNumeral part n → Numeral part n := by
    rintro part hpart n (h | ⟨digits, rfl, -⟩)
    · exact h
    · exact absurd (hpart '+' (by simp)) hplus
  cases range with
  | between first last =>
    obtain ⟨a, b, rfl, ha, hb, hle⟩ := h
    exact ⟨a, b, rfl, hnumeral a (fun c hc => by simp [hc]) _ ha,
      hnumeral b (fun c hc => by simp [hc]) _ hb, hle⟩
  | onward first =>
    obtain ⟨a, rfl, ha⟩ := h
    exact ⟨a, rfl, hnumeral a (fun c hc => by simp [hc]) _ ha⟩
  | suffix length =>
    obtain ⟨b, rfl, hb⟩ := h
    exact ⟨b, rfl, hnumeral b (fun c hc => by simp [hc]) _ hb⟩

/-- A sign makes a range of a value that is none. -/
theorem not_follows_of_signed {value : Bytes} (h : Signed value) (len : UInt64) :
    ¬ (parseRange (some value) len).Follows value len := by
  intro hfollows
  obtain ⟨text, range, htext, hspells, hplus⟩ := h
  obtain ⟨start, finish, -, hwritten⟩ := spells_iff.mp hspells
  refine hwritten.select_ne_full len ?_
  rw [← parseRange_of_spells htext hspells]
  refine hfollows.full fun range' hdenotes => ?_
  obtain ⟨text', htext', hspells'⟩ := hdenotes
  cases htext.symm.trans htext'
  exact hspells'.not_plus hplus

/-- `parse_range` follows the grammar exactly on the values without a signed number. -/
theorem parseRange_follows_iff (value : Bytes) (len : UInt64) :
    (parseRange (some value) len).Follows value len ↔ ¬ Signed value := by
  constructor
  · exact fun hfollows hsigned => not_follows_of_signed hsigned len hfollows
  · intro hsigned
    have hdenotes : ∀ range, Denotes value range →
        (parseRange (some value) len = .unsatisfiable ∧ ∀ i, ¬ range.Selects len.toNat i) ∨
          (parseRange (some value) len).Names range len := by
      rintro range ⟨text, htext, hspells⟩
      obtain ⟨start, finish, -, hwritten⟩ := spells_iff.mp hspells.signed
      rw [parseRange_of_spells htext hspells.signed]
      exact hwritten.select_cases len
    refine ⟨fun hnone => ?_, fun range hrange => ?_, fun range hrange hselects => ?_⟩
    · by_contra hfull
      obtain ⟨text, range, htext, hspells⟩ := spells_of_parseRange hfull
      have hplus : '+' ∉ text.toList := fun hplus => hsigned ⟨text, range, htext, hspells, hplus⟩
      exact hnone range ⟨text, htext, hspells.of_signed hplus⟩
    · rcases hdenotes range hrange with ⟨hparsed, hempty⟩ | hnames
      · exact iff_of_true hparsed hempty
      · refine iff_of_false (Names.ne_unsatisfiable hnames) fun hempty => ?_
        obtain ⟨i, hi⟩ := Names.selects hnames
        exact hempty i hi
    · rcases hdenotes range hrange with ⟨-, hempty⟩ | hnames
      · obtain ⟨i, hi⟩ := hselects
        exact absurd hi (hempty i)
      · exact hnames

/-- `bytes=+0-0`. -/
def signedRange : Bytes := [98, 121, 116, 101, 115, 61, 43, 48, 45, 48]

theorem toStr_signedRange : toStr signedRange = some "bytes=+0-0" := by rfl

theorem spells_signedRange : Spells SignedNumeral "bytes=+0-0" (.between 0 0) := by
  have hdigits : "0".toList.all Char.isDigit = true := by decide
  have hzero : Numeral "0" 0 := ⟨by decide, List.all_eq_true.mp hdigits, rfl, by decide⟩
  exact ⟨"+0", "0", rfl, .inr ⟨"0", rfl, hzero⟩, .inl hzero, le_refl _⟩

/-- A value that is no range selects the first byte of a body of one byte. -/
theorem signed_range_selected :
    parseRange (some signedRange) 1 = .partialRange 0 0 ∧
      ¬ (parseRange (some signedRange) 1).Follows signedRange 1 := by
  constructor
  · rw [parseRange_of_spells toStr_signedRange spells_signedRange]
    decide
  · exact not_follows_of_signed
      ⟨_, _, toStr_signedRange, spells_signedRange, by decide⟩ 1

end Flywheel.Http
