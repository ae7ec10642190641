import Flywheel.Lib.Keys

/-!
# Artifacts (`src/artifact`)

An artifact is named by the SHA-256 digest of its logical bytes and stored in one of
two encodings. `ArtifactMetadata` is the record the metadata store keeps for it.
Lengths are natural numbers: the staging loop adds them with `checked_add` and fails
before a `u64` could wrap. Times are `u64` seconds, since deadlines saturate and are
stored as eight big-endian bytes.
-/

set_option autoImplicit false

namespace Flywheel

open Lib

abbrev Bytes : Type := List UInt8

/-- `u64::saturating_add`. -/
def saturatingAdd (a b : UInt64) : UInt64 :=
  if a.toNat + b.toNat < 2 ^ 64 then a + b else 0xffffffffffffffff

theorem toNat_saturatingAdd (a b : UInt64) :
    (saturatingAdd a b).toNat = min (a.toNat + b.toNat) (2 ^ 64 - 1) := by
  unfold saturatingAdd
  split
  · rename_i h
    rw [UInt64.toNat_add, Nat.mod_eq_of_lt h]
    omega
  · show 2 ^ 64 - 1 = _
    omega

/-- `u64::saturating_sub`. -/
def saturatingSub (a b : UInt64) : UInt64 :=
  if b ≤ a then a - b else 0

theorem toNat_saturatingSub (a b : UInt64) :
    (saturatingSub a b).toNat = a.toNat - b.toNat := by
  unfold saturatingSub
  split
  · rename_i h
    exact UInt64.toNat_sub_of_le a b h
  · rename_i h
    rw [UInt64.le_iff_toNat_le] at h
    show 0 = _
    omega

theorem saturatingSub_self (a : UInt64) : saturatingSub a a = 0 :=
  UInt64.toNat_inj.mp (by rw [toNat_saturatingSub]; exact Nat.sub_self _)

/-! ## Digests and identities (`identity.rs`) -/

/-- A SHA-256 digest: exactly 32 bytes. -/
structure Digest where
  bytes : Bytes
  length_eq : bytes.length = 32
  deriving DecidableEq

theorem length_zeros : (List.replicate 32 (0 : UInt8)).length = 32 := List.length_replicate

structure ArtifactId where
  digest : Digest
  deriving DecidableEq

def ArtifactId.fromDigest (digest : Digest) : ArtifactId := ⟨digest⟩

theorem ArtifactId.ext_bytes {a b : ArtifactId} (h : a.digest.bytes = b.digest.bytes) :
    a = b := by
  obtain ⟨⟨x, hx⟩⟩ := a
  obtain ⟨⟨y, hy⟩⟩ := b
  cases h
  rfl

/-- A lowercase hexadecimal digit as an ASCII byte. -/
def hexDigit (d : Nat) : UInt8 := UInt8.ofNat (if d < 10 then 48 + d else 87 + d)

theorem hexDigit_inj {x y : Nat} (hx : x < 16) (hy : y < 16) (h : hexDigit x = hexDigit y) :
    x = y := by
  have key : ∀ a < 16, ∀ b < 16, hexDigit a = hexDigit b → a = b := by decide
  exact key x hx y hy h

/-- `hex::encode`: two digits for each byte. -/
def hexEncode (bytes : Bytes) : Bytes :=
  bytes.flatMap fun b => (beDigits 16 2 b.toNat).map hexDigit

@[simp] theorem hexEncode_nil : hexEncode [] = [] := rfl

theorem hexEncode_cons (b : UInt8) (bs : Bytes) :
    hexEncode (b :: bs) = (beDigits 16 2 b.toNat).map hexDigit ++ hexEncode bs := rfl

theorem hexEncode_inj {xs ys : Bytes} (h : hexEncode xs = hexEncode ys) : xs = ys := by
  induction xs generalizing ys with
  | nil =>
    cases ys with
    | nil => rfl
    | cons y ys =>
      have hlen := congrArg List.length h
      simp [hexEncode_cons] at hlen
      omega
  | cons x xs ih =>
    cases ys with
    | nil =>
      have hlen := congrArg List.length h
      simp [hexEncode_cons] at hlen
    | cons y ys =>
      rw [hexEncode_cons, hexEncode_cons] at h
      obtain ⟨hhead, htail⟩ := List.append_inj h (by simp)
      have hxy : x.toNat = y.toNat :=
        map_beDigits_inj (by decide) (fun _ _ => hexDigit_inj)
          (UInt8.toNat_lt x) (UInt8.toNat_lt y) hhead
      rw [UInt8.toNat_inj.mp hxy, ih htail]

/-- The value of a hexadecimal digit, of either case. -/
def hexValue (b : UInt8) : Option Nat :=
  if 48 ≤ b ∧ b ≤ 57 then some (b.toNat - 48)
  else if 97 ≤ b ∧ b ≤ 102 then some (b.toNat - 87)
  else if 65 ≤ b ∧ b ≤ 70 then some (b.toNat - 55)
  else none

/-- `hex::decode`. -/
def hexDecode : Bytes → Option Bytes
  | [] => some []
  | [_] => none
  | x :: y :: rest =>
    match hexValue x, hexValue y, hexDecode rest with
    | some high, some low, some bytes => some (UInt8.ofNat (high * 16 + low) :: bytes)
    | _, _, _ => none

theorem hexValue_hexDigit {d : Nat} (hd : d < 16) : hexValue (hexDigit d) = some d := by
  have key : ∀ d < 16, hexValue (hexDigit d) = some d := by decide
  exact key d hd

/-- What `hex::encode` writes, `hex::decode` reads. -/
theorem hexDecode_hexEncode (bytes : Bytes) : hexDecode (hexEncode bytes) = some bytes := by
  induction bytes with
  | nil => rfl
  | cons b bytes ih =>
    have hb := UInt8.toNat_lt b
    have hhigh : hexValue (hexDigit (b.toNat / 16 % 16)) = some (b.toNat / 16 % 16) :=
      hexValue_hexDigit (Nat.mod_lt _ (by decide))
    have hlow : hexValue (hexDigit (b.toNat % 16)) = some (b.toNat % 16) :=
      hexValue_hexDigit (Nat.mod_lt _ (by decide))
    have hvalue : b.toNat / 16 % 16 * 16 + b.toNat % 16 = b.toNat := by omega
    have hdigits : (beDigits 16 2 b.toNat).map hexDigit =
        [hexDigit (b.toNat / 16 % 16), hexDigit (b.toNat % 16)] := by
      simp [beDigits]
    rw [hexEncode_cons, hdigits, List.cons_append, List.cons_append, List.nil_append, hexDecode,
      hhigh, hlow, ih]
    simp only [hvalue, UInt8.ofNat_toNat]

def isAsciiUppercase (b : UInt8) : Bool := 65 ≤ b && b ≤ 90

theorem hexValue_cases {b : UInt8} {d : Nat} (h : hexValue b = some d) :
    b.toNat = d + 48 ∧ d < 10 ∨ b.toNat = d + 87 ∧ 10 ≤ d ∧ d < 16 ∨
      b.toNat = d + 55 ∧ 10 ≤ d ∧ d < 16 := by
  unfold hexValue at h
  simp only [UInt8.le_iff_toNat_le, UInt8.reduceToNat] at h
  split at h
  · cases h
    omega
  · split at h
    · cases h
      omega
    · split at h
      · cases h
        omega
      · cases h

theorem hexValue_lt {b : UInt8} {d : Nat} (h : hexValue b = some d) : d < 16 := by
  rcases hexValue_cases h with h | h | h <;> omega

theorem hexDigit_of_hexValue {b : UInt8} {d : Nat} (h : hexValue b = some d)
    (hlower : isAsciiUppercase b = false) : hexDigit d = b := by
  have hletter : ¬ (65 ≤ b.toNat ∧ b.toNat ≤ 90) := by
    simpa [isAsciiUppercase, UInt8.le_iff_toNat_le] using hlower
  have hbyte := b.toNat_lt
  refine UInt8.toNat_inj.mp ?_
  rw [hexDigit, UInt8.toNat_ofNat']
  rcases hexValue_cases h with ⟨hb, hd⟩ | ⟨hb, hd, -⟩ | ⟨hb, hd, hd'⟩
  · rw [if_pos hd]
    omega
  · rw [if_neg (by omega)]
    omega
  · omega

/-- What `hex::decode` reads without capitals, `hex::encode` writes. -/
theorem hexEncode_of_hexDecode {text bytes : Bytes} (h : hexDecode text = some bytes)
    (hlower : text.any isAsciiUppercase = false) : hexEncode bytes = text := by
  fun_induction hexDecode text generalizing bytes with
  | case1 =>
    cases h
    rfl
  | case2 => cases h
  | case3 x y rest high low decoded hrest hy hx ih =>
    cases h
    simp only [List.any_cons, Bool.or_eq_false_iff] at hlower
    obtain ⟨hlowerx, hlowery, hlower⟩ := hlower
    have hhigh := hexValue_lt hx
    have hlow := hexValue_lt hy
    have hdigits : (beDigits 16 2 (UInt8.ofNat (high * 16 + low)).toNat).map hexDigit =
        [hexDigit high, hexDigit low] := by
      rw [UInt8.toNat_ofNat', Nat.mod_eq_of_lt (by omega)]
      simp only [beDigits, List.map_cons, List.map_nil]
      rw [show (high * 16 + low) / 16 ^ 1 % 16 = high by omega,
        show (high * 16 + low) / 16 ^ 0 % 16 = low by omega]
    rw [hexEncode_cons, hdigits, ih hrest hlower, hexDigit_of_hexValue hx hlowerx,
      hexDigit_of_hexValue hy hlowery]
    rfl
  | case4 => cases h

/-- `Digest::parse`: uppercase digits decode, but are not canonical. -/
def Digest.parse (value : Bytes) : Option Digest :=
  if value.any isAsciiUppercase then none
  else
    match hexDecode value with
    | some bytes => if h : bytes.length = 32 then some ⟨bytes, h⟩ else none
    | none => none

/-- `ArtifactId::parse`. -/
def ArtifactId.parse (algorithm digest : Bytes) : Option ArtifactId :=
  if algorithm ≠ "sha256".toUTF8.toList then none else (Digest.parse digest).map .fromDigest

/-- The digits of a digest have no uppercase letter. -/
theorem not_isAsciiUppercase_hexDigit {d : Nat} (hd : d < 16) :
    isAsciiUppercase (hexDigit d) = false := by
  revert d
  decide

/-- The text of an artifact names it. -/
theorem ArtifactId.parse_hexEncode (a : ArtifactId) :
    ArtifactId.parse "sha256".toUTF8.toList (hexEncode a.digest.bytes) = some a := by
  have hlower : (hexEncode a.digest.bytes).any isAsciiUppercase = false := by
    rw [List.any_eq_false]
    intro b hb
    obtain ⟨byte, -, hdigit⟩ := List.mem_flatMap.mp hb
    obtain ⟨d, hd, rfl⟩ := List.mem_map.mp hdigit
    rw [not_isAsciiUppercase_hexDigit (beDigits_lt (by decide) hd)]
    exact Bool.false_ne_true
  rw [ArtifactId.parse, if_neg (not_not_intro rfl), Digest.parse, hlower, hexDecode_hexEncode]
  simp [a.digest.length_eq, fromDigest]

/-- An artifact has no other text. -/
theorem ArtifactId.hexEncode_of_parse {algorithm text : Bytes} {id : ArtifactId}
    (h : ArtifactId.parse algorithm text = some id) : hexEncode id.digest.bytes = text := by
  unfold ArtifactId.parse at h
  split at h
  · cases h
  · obtain ⟨digest, hdigest, rfl⟩ := Option.map_eq_some_iff.mp h
    unfold Digest.parse at hdigest
    split at hdigest
    · cases hdigest
    · rename_i hlower
      split at hdigest
      · rename_i bytes hbytes
        split at hdigest
        · cases hdigest
          exact hexEncode_of_hexDecode hbytes (Bool.eq_false_iff.mpr hlower)
        · cases hdigest
      · cases hdigest

/-! ## References (`reference.rs`) -/

def isAsciiAlphanumeric (b : UInt8) : Bool :=
  (48 ≤ b && b ≤ 57) || (97 ≤ b && b ≤ 122) || isAsciiUppercase b

/-- `Reference::is_valid`; the punctuation is `-`, `_`, `.` and `~`. -/
def Reference.isValid (value : Bytes) : Bool :=
  !value.isEmpty && value.length ≤ 512 &&
    value.all fun b => isAsciiAlphanumeric b || [45, 95, 46, 126].contains b

/-! ## Metadata (`metadata.rs`) -/

/-- How an artifact body is encoded on disk. -/
inductive StoredEncoding where
  | identity
  | zstd
  deriving DecidableEq

structure ArtifactMetadata where
  contentLen : Nat
  contentType : Option String
  createdAt : UInt64
  /-- The soft eviction deadline, and the identity of the artifact's queue row. -/
  eligibleAt : UInt64
  /-- The on-disk byte count, what eviction reclaims. -/
  storedLen : Nat
  encoding : StoredEncoding
  deriving DecidableEq

/-- Whether a batch and the body it commits must reach the disk before the
publication is acknowledged (`storage/metadata/mod.rs`). -/
inductive Durability where
  | durable
  | bestEffort
  deriving DecidableEq

end Flywheel
