import Mathlib.Data.List.DropRight
import Mathlib.Data.List.TakeWhile

/-!
# Text: bytes, stripping, cutting, base64url

- `toUTF8_inj`: texts are equal when their bytes are.
- `stripPrefix`, `stripSuffix`: what is left of a text without a given start or end.
- `cut c`: a text up to the first `c`, and what follows it.
- `split c`, `join c`: a text between all its `c`, and the way back.
- `base64url`: the unpadded encoding in the URL-safe alphabet. `base64urlDecode` accepts
  canonical texts only: the bits a last group does not use have to be zero.
-/

set_option autoImplicit false

namespace Flywheel.Lib

/-! ## UTF-8 -/

theorem fromUTF8?_toUTF8 (s : String) : String.fromUTF8? s.toUTF8 = some s := by
  have hvalid : s.toUTF8.IsValidUTF8 := s.isValidUTF8
  rw [String.fromUTF8?, dif_pos hvalid]
  rfl

theorem toList_loop (b : ByteArray) (i : Nat) (r : List UInt8) :
    ByteArray.toList.loop b i r = r.reverse ++ b.data.toList.drop i := by
  fun_induction ByteArray.toList.loop b i r with
  | case1 i r hi ih =>
    rw [ih]
    have hlt : i < b.data.toList.length := hi
    have hget : b.get! i = b.data.toList[i] := by
      show b.data[i]! = _
      rw [getElem!_pos b.data i hi]
      rfl
    rw [List.drop_eq_getElem_cons hlt, hget, List.reverse_cons, List.append_assoc]
    rfl
  | case2 i r hi =>
    have hlen : b.data.toList.length ≤ i := Nat.le_of_not_lt hi
    rw [List.drop_eq_nil_of_le hlen, List.append_nil]

theorem toList_toUTF8 (s : String) : s.toUTF8.toList = s.toUTF8.data.toList := by
  rw [ByteArray.toList, toList_loop]
  rfl

theorem toUTF8_inj {s t : String} (h : s.toUTF8.toList = t.toUTF8.toList) : s = t := by
  rw [toList_toUTF8, toList_toUTF8] at h
  exact String.toByteArray_inj.mp (ByteArray.ext (Array.toList_inj.mp h))

/-! ## Stripping -/

def stripPrefix (p s : String) : Option String := (p.toList.isPrefixOf? s.toList).map String.ofList

def stripSuffix (p s : String) : Option String := (p.toList.isSuffixOf? s.toList).map String.ofList

theorem isPrefixOf?_append {α : Type} [DecidableEq α] (p s : List α) :
    p.isPrefixOf? (p ++ s) = some s := by
  induction p with
  | nil => rfl
  | cons x p ih =>
    show (if x == x then p.isPrefixOf? (p ++ s) else none) = some s
    rw [beq_self_eq_true, if_pos rfl, ih]

theorem eq_append_of_isPrefixOf? {α : Type} [DecidableEq α] {p s t : List α}
    (h : p.isPrefixOf? s = some t) : s = p ++ t := by
  induction p generalizing s with
  | nil =>
    cases h
    rfl
  | cons x p ih =>
    cases s with
    | nil => cases h
    | cons y s =>
      change (if x == y then p.isPrefixOf? s else none) = some t at h
      split at h
      · rename_i hxy
        rw [ih h, eq_of_beq hxy]
        rfl
      · cases h

theorem stripPrefix_append (p s : String) : stripPrefix p (p ++ s) = some s := by
  rw [stripPrefix, String.toList_append, isPrefixOf?_append]
  simp

theorem eq_append_of_stripPrefix {p s t : String} (h : stripPrefix p s = some t) :
    s = p ++ t := by
  obtain ⟨rest, hrest, rfl⟩ := Option.map_eq_some_iff.mp h
  rw [← String.toList_inj, String.toList_append, String.toList_ofList,
    eq_append_of_isPrefixOf? hrest]

theorem stripSuffix_eq (p s : String) : stripSuffix p s =
    ((p.toList.reverse.isPrefixOf? s.toList.reverse).map List.reverse).map String.ofList := rfl

theorem stripSuffix_append (p s : String) : stripSuffix p (s ++ p) = some s := by
  rw [stripSuffix_eq, String.toList_append, List.reverse_append, isPrefixOf?_append]
  simp

theorem eq_append_of_stripSuffix {p s t : String} (h : stripSuffix p s = some t) :
    s = t ++ p := by
  rw [stripSuffix_eq] at h
  obtain ⟨_, hrest, rfl⟩ := Option.map_eq_some_iff.mp h
  obtain ⟨rest, hreversed, rfl⟩ := Option.map_eq_some_iff.mp hrest
  have hreverse := congrArg List.reverse (eq_append_of_isPrefixOf? hreversed)
  rw [List.reverse_reverse, List.reverse_append, List.reverse_reverse] at hreverse
  rw [← String.toList_inj, String.toList_append, String.toList_ofList, hreverse]

/-- A text without a character of `p` does not end in `p`. -/
theorem stripSuffix_eq_none {p s : String} {c : Char} (hc : c ∈ p.toList) (hs : c ∉ s.toList) :
    stripSuffix p s = none := by
  rw [stripSuffix_eq]
  cases h : p.toList.reverse.isPrefixOf? s.toList.reverse with
  | none => rfl
  | some t =>
    have hmem : c ∈ s.toList.reverse := by
      rw [eq_append_of_isPrefixOf? h]
      exact List.mem_append_left _ (List.mem_reverse.mpr hc)
    exact absurd (List.mem_reverse.mp hmem) hs

/-! ## Cutting -/

/-- The text before the first `c`, and the text after it if there is one. -/
def cut (c : Char) (s : String) : String × Option String :=
  (String.ofList (s.toList.takeWhile (· ≠ c)),
    match s.toList.dropWhile (· ≠ c) with
    | [] => none
    | _ :: rest => some (String.ofList rest))

theorem cut_of_not_mem {c : Char} {s : String} (h : c ∉ s.toList) : cut c s = (s, none) := by
  have hall : ∀ x ∈ s.toList, decide (x ≠ c) = true := by
    intro x hx
    refine decide_eq_true ?_
    rintro rfl
    exact h hx
  rw [cut, List.takeWhile_eq_self_iff.mpr hall, List.dropWhile_eq_nil_iff.mpr hall]
  simp

theorem cut_append {c : Char} {s : String} (h : c ∉ s.toList) (t : String) :
    cut c (s ++ String.singleton c ++ t) = (s, some t) := by
  have hall : ∀ x ∈ s.toList, decide (x ≠ c) = true := by
    intro x hx
    refine decide_eq_true ?_
    rintro rfl
    exact h hx
  rw [cut]
  simp only [String.toList_append, String.toList_singleton, List.append_assoc,
    List.takeWhile_append_of_pos hall, List.dropWhile_append_of_pos hall]
  simp

theorem eq_append_of_cut {c : Char} {s a b : String} (h : cut c s = (a, some b)) :
    s = a ++ String.singleton c ++ b := by
  obtain ⟨ha, hb⟩ := Prod.mk.inj h
  have hlist : s.toList = s.toList.takeWhile (· ≠ c) ++ s.toList.dropWhile (· ≠ c) :=
    List.takeWhile_append_dropWhile.symm
  split at hb
  · cases hb
  · rename_i head rest hdrop
    cases hb
    -- the first character that is left is the one the text is cut at
    have hhead : head = c := by
      have hne := List.head?_dropWhile_not (fun x => decide (x ≠ c)) s.toList
      rw [hdrop] at hne
      simpa using hne
    rw [← String.toList_inj, hlist, hdrop, hhead, ← ha]
    simp

/-- Before the cut there is no `c`. -/
theorem not_mem_cut (c : Char) (s : String) : c ∉ (cut c s).1.toList := by
  intro h
  rw [cut, String.toList_ofList] at h
  simpa using List.mem_takeWhile_imp h

/-- What is cut off was there. -/
theorem mem_of_mem_cut {c x : Char} {s : String} :
    (x ∈ (cut c s).1.toList → x ∈ s.toList) ∧
      ∀ t, (cut c s).2 = some t → x ∈ t.toList → x ∈ s.toList := by
  constructor
  · intro hx
    rw [cut, String.toList_ofList] at hx
    exact (List.takeWhile_prefix _).subset hx
  · intro t ht hx
    rw [cut] at ht
    have hsub : ∀ y ∈ s.toList.dropWhile (· ≠ c), y ∈ s.toList :=
      fun _ hy => (List.dropWhile_suffix _).subset hy
    dsimp only at ht
    split at ht
    · cases ht
    · rename_i head rest hdrop
      cases ht
      rw [String.toList_ofList] at hx
      exact hsub x (hdrop ▸ List.mem_cons_of_mem _ hx)

/-! ## Splitting -/

def split (c : Char) (s : String) : List String := (s.toList.splitOn c).map String.ofList

def join (c : Char) (l : List String) : String := String.ofList ([c].intercalate (l.map String.toList))

theorem not_mem_of_mem_splitOn {α : Type} [DecidableEq α] {a : α} {xs part : List α}
    (h : part ∈ xs.splitOn a) : a ∉ part := by
  induction xs generalizing part with
  | nil =>
    rw [List.splitOn_nil, List.mem_singleton] at h
    rw [h]
    exact List.not_mem_nil
  | cons x xs ih =>
    rw [List.splitOn_cons_eq_if_modifyHead] at h
    split at h
    · obtain rfl | h := List.mem_cons.mp h
      · exact List.not_mem_nil
      · exact ih h
    · rename_i hx
      cases hparts : xs.splitOn a with
      | nil => exact absurd hparts (List.splitOn_ne_nil a xs)
      | cons first rest =>
        rw [hparts] at h ih
        obtain rfl | h := List.mem_cons.mp h
        · intro hmem
          obtain rfl | hmem := List.mem_cons.mp hmem
          · exact hx (beq_self_eq_true a)
          · exact ih List.mem_cons_self hmem
        · exact ih (List.mem_cons_of_mem _ h)

theorem not_mem_of_mem_split {c : Char} {s t : String} (h : t ∈ split c s) : c ∉ t.toList := by
  obtain ⟨part, hpart, rfl⟩ := List.mem_map.mp h
  rw [String.toList_ofList]
  exact not_mem_of_mem_splitOn hpart

theorem split_ne_nil (c : Char) (s : String) : split c s ≠ [] := by
  rw [split, Ne, List.map_eq_nil_iff]
  exact List.splitOn_ne_nil c s.toList

theorem split_join {c : Char} {l : List String} (h : ∀ t ∈ l, c ∉ t.toList) (hne : l ≠ []) :
    split c (join c l) = l := by
  have hparts : ∀ part ∈ l.map String.toList, c ∉ part := by
    intro part hpart
    obtain ⟨t, ht, rfl⟩ := List.mem_map.mp hpart
    exact h t ht
  have hne' : l.map String.toList ≠ [] := by simpa using hne
  rw [split, join, String.toList_ofList, List.splitOn_intercalate c hparts hne', List.map_map]
  have hid : String.ofList ∘ String.toList = id := funext fun _ => String.ofList_toList
  rw [hid, List.map_id]

/-- Two parts have a `c` between them. -/
theorem mem_join (c : Char) (t t' : String) (l : List String) :
    c ∈ (join c (t :: t' :: l)).toList := by
  rw [join, String.toList_ofList]
  simp

/-! ## White space and case -/

/-- The characters of the Unicode property `White_Space`. -/
def isWhiteSpace (c : Char) : Bool :=
  (0x9 ≤ c.toNat && c.toNat ≤ 0xD) || (0x2000 ≤ c.toNat && c.toNat ≤ 0x200A) ||
    [0x20, 0x85, 0xA0, 0x1680, 0x2028, 0x2029, 0x202F, 0x205F, 0x3000].contains c.toNat

def trimWhiteSpace (s : String) : String :=
  String.ofList ((s.toList.dropWhile isWhiteSpace).rdropWhile isWhiteSpace)

/-- `to_ascii_lowercase`. -/
def asciiLower (s : String) : String := String.ofList (s.toList.map Char.toLower)

/-- What has a character that is not white space is not blank. -/
theorem trimWhiteSpace_ne_empty {s : String} {c : Char} (hc : isWhiteSpace c = false)
    (h : c ∈ s.toList) : trimWhiteSpace s ≠ "" := by
  intro hempty
  have hall : ∀ x ∈ s.toList.dropWhile isWhiteSpace, isWhiteSpace x = true :=
    List.rdropWhile_eq_nil_iff.mp (by simpa [trimWhiteSpace] using hempty)
  -- the first character that is left is not white space, so none is left
  cases hdrop : s.toList.dropWhile isWhiteSpace with
  | nil =>
    have hspace := List.dropWhile_eq_nil_iff.mp hdrop c h
    exact Bool.false_ne_true (hc.symm.trans hspace)
  | cons x rest =>
    have hfirst := List.head?_dropWhile_not isWhiteSpace s.toList
    rw [hdrop] at hfirst hall
    have hspace := hall x List.mem_cons_self
    simp [hspace] at hfirst

/-! ## Base64url -/

/-- The URL-safe alphabet. -/
def base64Alphabet : List Char :=
  ['A', 'B', 'C', 'D', 'E', 'F', 'G', 'H', 'I', 'J', 'K', 'L', 'M', 'N', 'O', 'P', 'Q', 'R', 'S',
    'T', 'U', 'V', 'W', 'X', 'Y', 'Z', 'a', 'b', 'c', 'd', 'e', 'f', 'g', 'h', 'i', 'j', 'k', 'l',
    'm', 'n', 'o', 'p', 'q', 'r', 's', 't', 'u', 'v', 'w', 'x', 'y', 'z', '0', '1', '2', '3', '4',
    '5', '6', '7', '8', '9', '-', '_']

def base64Char (n : Nat) : Char := base64Alphabet.getD n '_'

def base64Value (c : Char) : Option Nat := base64Alphabet.findIdx? (· == c)

theorem base64Value_base64Char {n : Nat} (h : n < 64) : base64Value (base64Char n) = some n := by
  have key : ∀ k < 64, base64Value (base64Char k) = some k := by decide
  exact key n h

def base64Plain (c : Char) : Bool := c.isAlphanum || c == '-' || c == '_'

theorem base64Plain_base64Char (n : Nat) : base64Plain (base64Char n) = true := by
  have key : ∀ k < 64, base64Plain (base64Char k) = true := by decide
  by_cases h : n < 64
  · exact key n h
  · have hlen : base64Alphabet.length = 64 := rfl
    rw [base64Char, List.getD_eq_getElem?_getD, List.getElem?_eq_none (by omega)]
    decide

def base64url : List UInt8 → List Char
  | [] => []
  | [a] => [base64Char (a.toNat / 4), base64Char (a.toNat % 4 * 16)]
  | [a, b] =>
    [base64Char (a.toNat / 4), base64Char (a.toNat % 4 * 16 + b.toNat / 16),
      base64Char (b.toNat % 16 * 4)]
  | a :: b :: c :: rest =>
    base64Char (a.toNat / 4) :: base64Char (a.toNat % 4 * 16 + b.toNat / 16) ::
      base64Char (b.toNat % 16 * 4 + c.toNat / 64) :: base64Char (c.toNat % 64) :: base64url rest

def base64urlDecode : List Char → Option (List UInt8)
  | [] => some []
  | [_] => none
  | [x, y] =>
    match base64Value x, base64Value y with
    | some x, some y => if y % 16 = 0 then some [UInt8.ofNat (x * 4 + y / 16)] else none
    | _, _ => none
  | [x, y, z] =>
    match base64Value x, base64Value y, base64Value z with
    | some x, some y, some z =>
      if z % 4 = 0 then
        some [UInt8.ofNat (x * 4 + y / 16), UInt8.ofNat (y % 16 * 16 + z / 4)]
      else none
    | _, _, _ => none
  | x :: y :: z :: w :: rest =>
    match base64Value x, base64Value y, base64Value z, base64Value w, base64urlDecode rest with
    | some x, some y, some z, some w, some bytes =>
      some (UInt8.ofNat (x * 4 + y / 16) :: UInt8.ofNat (y % 16 * 16 + z / 4) ::
        UInt8.ofNat (z % 4 * 64 + w) :: bytes)
    | _, _, _, _, _ => none

theorem base64urlDecode_base64url (bytes : List UInt8) :
    base64urlDecode (base64url bytes) = some bytes := by
  have hbyte : ∀ (b : UInt8) (n : Nat), n = b.toNat → UInt8.ofNat n = b := by
    rintro b _ rfl
    exact UInt8.ofNat_toNat
  fun_induction base64url bytes with
  | case1 => rfl
  | case2 a =>
    have ha := a.toNat_lt
    simp only [base64urlDecode, base64Value_base64Char (n := a.toNat / 4) (by omega),
      base64Value_base64Char (n := a.toNat % 4 * 16) (by omega)]
    rw [if_pos (by omega), hbyte a _ (by omega)]
  | case3 a b =>
    have ha := a.toNat_lt
    have hb := b.toNat_lt
    simp only [base64urlDecode, base64Value_base64Char (n := a.toNat / 4) (by omega),
      base64Value_base64Char (n := a.toNat % 4 * 16 + b.toNat / 16) (by omega),
      base64Value_base64Char (n := b.toNat % 16 * 4) (by omega)]
    rw [if_pos (by omega), hbyte a _ (by omega), hbyte b _ (by omega)]
  | case4 a b c rest ih =>
    have ha := a.toNat_lt
    have hb := b.toNat_lt
    have hc := c.toNat_lt
    simp only [base64urlDecode, base64Value_base64Char (n := a.toNat / 4) (by omega),
      base64Value_base64Char (n := a.toNat % 4 * 16 + b.toNat / 16) (by omega),
      base64Value_base64Char (n := b.toNat % 16 * 4 + c.toNat / 64) (by omega),
      base64Value_base64Char (n := c.toNat % 64) (by omega), ih]
    rw [hbyte a _ (by omega), hbyte b _ (by omega), hbyte c _ (by omega)]

theorem base64Plain_of_mem {bytes : List UInt8} {c : Char} (h : c ∈ base64url bytes) :
    base64Plain c = true := by
  fun_induction base64url bytes with
  | case1 => cases h
  | case2 a | case3 a b =>
    simp only [List.mem_cons, List.not_mem_nil, or_false] at h
    rcases h with rfl | rfl | rfl <;> exact base64Plain_base64Char _
  | case4 a b d rest ih =>
    simp only [List.mem_cons] at h
    rcases h with rfl | rfl | rfl | rfl | h
    · exact base64Plain_base64Char _
    · exact base64Plain_base64Char _
    · exact base64Plain_base64Char _
    · exact base64Plain_base64Char _
    · exact ih h

end Flywheel.Lib
