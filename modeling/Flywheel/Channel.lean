import Flywheel.Artifact
import Mathlib.Data.List.Infix

/-!
# Channels (`src/channel`)

A channel is named by a ULID whose canonical 26-character text is the first component
of every storage key and of every path. The text is modelled as `ulid` writes it: the
128-bit number in big-endian base 32, in Crockford's alphabet.
-/

set_option autoImplicit false

namespace Flywheel

open Lib

/-! ## Identity (`identity.rs`) -/

structure ChannelId where
  ulid : BitVec 128
  deriving DecidableEq

/-- The nil ULID names the Default Channel. -/
def ChannelId.default : ChannelId := ⟨0⟩

/-- Crockford's base-32 alphabet, as ASCII bytes. -/
def crockford (d : Nat) : UInt8 :=
  ([48, 49, 50, 51, 52, 53, 54, 55, 56, 57, 65, 66, 67, 68, 69, 70, 71, 72, 74, 75, 77, 78, 80,
    81, 82, 83, 84, 86, 87, 88, 89, 90] : Bytes).getD d 0

theorem crockford_inj {x y : Nat} (hx : x < 32) (hy : y < 32) (h : crockford x = crockford y) :
    x = y := by
  have key : ∀ a < 32, ∀ b < 32, crockford a = crockford b → a = b := by decide
  exact key x hx y hy h

/-- A Crockford digit leaves room above it: its byte can be incremented. -/
theorem crockford_lt (x : Nat) : (crockford x).toNat < 255 := by
  unfold crockford
  by_cases hx : x < 32
  · revert x
    decide
  · rw [List.getD_eq_getElem?_getD, List.getElem?_eq_none (by simpa using hx)]
    decide

/-- `ChannelId::as_key`: the canonical ULID text. -/
def ChannelId.asKey (c : ChannelId) : Bytes := (beDigits 32 26 c.ulid.toNat).map crockford

@[simp] theorem ChannelId.length_asKey (c : ChannelId) : c.asKey.length = 26 := by
  simp [asKey]

theorem ChannelId.asKey_inj {c d : ChannelId} (h : c.asKey = d.asKey) : c = d := by
  have hlt : ∀ e : ChannelId, e.ulid.toNat < 32 ^ 26 := fun e =>
    Nat.lt_of_lt_of_le e.ulid.isLt (by decide)
  have hnat : c.ulid.toNat = d.ulid.toNat :=
    map_beDigits_inj (by decide) (fun _ _ => crockford_inj) (hlt c) (hlt d) h
  exact congrArg ChannelId.mk (BitVec.eq_of_toNat_eq hnat)

/-- Keys that start with a channel's text belong to that channel only. -/
theorem ChannelId.eq_of_asKey_prefix {c d : ChannelId} {rest : Bytes}
    (h : c.asKey <+: d.asKey ++ rest) : c = d := by
  refine asKey_inj ?_
  exact List.IsPrefix.eq_of_length
    (List.prefix_of_prefix_length_le h (List.prefix_append _ _) (by simp)) (by simp)

/-! ### Text -/

/-- `ChannelId` as text. -/
def ChannelId.text (c : ChannelId) : String :=
  String.ofList (c.asKey.map fun b => Char.ofNat b.toNat)

def crockfordChar (d : Nat) : Char := Char.ofNat (crockford d).toNat

def crockfordValue (c : Char) : Option Nat := (List.range 32).find? fun d => crockfordChar d == c

/-- `ChannelId::from_str`: lower case and a number beyond 128 bits do not survive the
comparison with the canonical text. -/
def ChannelId.parse (text : String) : Option ChannelId :=
  ((text.toList.mapM crockfordValue).map fun digits =>
    ChannelId.mk (BitVec.ofNat 128 (ofDigits 32 digits))).filter fun c => c.text = text

theorem crockfordValue_crockfordChar {d : Nat} (h : d < 32) :
    crockfordValue (crockfordChar d) = some d := by
  revert d
  decide

theorem ChannelId.text_toList (c : ChannelId) :
    c.text.toList = (beDigits 32 26 c.ulid.toNat).map crockfordChar := by
  rw [text, asKey, String.toList_ofList, List.map_map]
  rfl

theorem mapM_crockfordValue {digits : List Nat} (h : ∀ d ∈ digits, d < 32) :
    (digits.map crockfordChar).mapM crockfordValue = some digits := by
  induction digits with
  | nil => rfl
  | cons d ds ih =>
    rw [List.map_cons, List.mapM_cons, crockfordValue_crockfordChar (h d (by simp)),
      ih fun d' hd' => h d' (by simp [hd'])]
    rfl

/-- The canonical text is the only one that names a channel. -/
theorem ChannelId.parse_eq_some {text : String} {c : ChannelId} :
    ChannelId.parse text = some c ↔ text = c.text := by
  constructor
  · intro h
    have hfilter := (Option.filter_eq_some_iff.mp h).2
    exact (of_decide_eq_true hfilter).symm
  · rintro rfl
    have hlt : c.ulid.toNat < 32 ^ 26 := Nat.lt_of_lt_of_le c.ulid.isLt (by decide)
    have hdigits : ∀ d ∈ beDigits 32 26 c.ulid.toNat, d < 32 := fun _ => beDigits_lt (by decide)
    rw [ChannelId.parse, text_toList, mapM_crockfordValue hdigits, Option.map_some,
      ofDigits_beDigits hlt, BitVec.ofNat_toNat, BitVec.setWidth_eq]
    exact Option.filter_some_pos (decide_eq_true rfl)

/-! ## Access and lifecycle (`policy.rs`, `registry.rs`, `token.rs`) -/

/-- Who may use a channel; a protected channel stores the digest of its token. -/
inductive Access where
  | open
  | token (digest : Digest)
  deriving DecidableEq

inductive Lifecycle where
  | active
  | deleting
  deriving DecidableEq

structure ChannelRecord where
  id : ChannelId
  access : Access
  expirySeconds : UInt64
  state : Lifecycle
  createdAt : UInt64
  deriving DecidableEq

/-- `authorize_record`, with `TokenDigest::verify` hashing the candidate. -/
def authorizeRecord (sha256 : Bytes → Digest) (record : ChannelRecord)
    (credential : Option Bytes) : Bool :=
  match record.access with
  | .open => true
  | .token digest => credential.any fun candidate => digest == sha256 candidate

end Flywheel
