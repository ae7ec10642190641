import Flywheel.Lib.Text
import Flywheel.Proxy.Fetch
import Flywheel.Transport.BuildCache

/-!
# Who writes which reference

References of the API, keys of the HTTP build cache, hashes of Bazel's action cache and targets of
the package proxy all become names in the one reference family of a channel. The API's names are
validated and hold no colon; the others start with `build:http:`, `build:bazel-ac:` or `proxy:` and
a protocol. The reads of the build cache do not validate their key, so a key here is any bytes.

A name of the proxy ends in a digest of its URL and variant. The length in front of the URL makes
what is hashed injective, so two targets share a name only by a collision of SHA-256.
-/

set_option autoImplicit false

namespace Flywheel

open Lib

/-- A reference the API accepts (`Reference::parse`). -/
structure Reference where
  value : Bytes
  valid : Reference.isValid value = true

/-- The text of a URL; its length is a `u64`. -/
structure UrlText where
  text : String
  length_lt : text.toUTF8.toList.length < 2 ^ 64

/-- What a stored reference stands for. -/
inductive Referent where
  | api (reference : Reference)
  | build (key : BuildKey)
  | proxy (protocol : Protocol) (url : UrlText) (variant : String)

/-- What `proxy_reference` hashes. -/
def proxyPreimage (url : UrlText) (variant : String) : Bytes :=
  beBytes (UInt64.ofNat url.text.toUTF8.toList.length) ++ url.text.toUTF8.toList ++
    variant.toUTF8.toList

namespace Referent

variable (sha256 : Bytes → Digest)

def name : Referent → Bytes
  | .api reference => reference.value
  | .build key => key.reference
  | .proxy protocol url variant => proxyReference sha256 protocol url.text variant

/-- Two targets of one protocol whose preimages differ but have one digest. -/
def Collide : Referent → Referent → Prop
  | .proxy protocol url variant, .proxy protocol' url' variant' => protocol = protocol' ∧
      proxyPreimage url variant ≠ proxyPreimage url' variant' ∧
      sha256 (proxyPreimage url variant) = sha256 (proxyPreimage url' variant')
  | _, _ => False

end Referent

/-! ## Names of the proxy -/

theorem proxyPreimage_inj {url url' : UrlText} {variant variant' : String}
    (h : proxyPreimage url variant = proxyPreimage url' variant') : url = url' ∧ variant = variant' := by
  obtain ⟨text, hlt⟩ := url
  obtain ⟨text', hlt'⟩ := url'
  rw [proxyPreimage, proxyPreimage, List.append_assoc, List.append_assoc] at h
  obtain ⟨hlength, hrest⟩ := List.append_inj h (by simp [beBytes])
  have hnat := congrArg UInt64.toNat (beBytes_inj hlength)
  rw [UInt64.toNat_ofNat_of_lt' hlt, UInt64.toNat_ofNat_of_lt' hlt'] at hnat
  obtain ⟨htext, hvariant⟩ := List.append_inj hrest hnat
  obtain rfl := toUTF8_inj htext
  exact ⟨rfl, toUTF8_inj hvariant⟩

/-- What stands in front of the digest. -/
def proxyPrefix (protocol : Protocol) : Bytes := ("proxy:" ++ protocol.name ++ ":").toUTF8.toList

theorem proxyPrefix_inj {protocol protocol' : Protocol}
    (h : proxyPrefix protocol = proxyPrefix protocol') : protocol = protocol' := by
  revert protocol protocol'
  have key : ∀ p ∈ [Protocol.go, .python, .npm, .cargoIndex, .cargoCrate],
      ∀ q ∈ [Protocol.go, .python, .npm, .cargoIndex, .cargoCrate],
        proxyPrefix p = proxyPrefix q → p = q := by decide +kernel
  intro p q
  exact key p (by cases p <;> decide) q (by cases q <;> decide)

theorem isPrefixOf_proxyReference (sha256 : Bytes → Digest) (protocol : Protocol)
    (url variant : String) :
    "proxy:".toUTF8.toList.isPrefixOf (proxyReference sha256 protocol url variant) = true := by
  have hproxy : ∀ p ∈ [Protocol.go, .python, .npm, .cargoIndex, .cargoCrate],
      "proxy:".toUTF8.toList.isPrefixOf (proxyPrefix p) = true := by decide +kernel
  have hprotocol := hproxy protocol (by cases protocol <;> decide)
  rw [List.isPrefixOf_iff_prefix] at hprotocol ⊢
  exact hprotocol.trans (List.prefix_append _ _)

theorem proxyReference_inj {sha256 : Bytes → Digest} {protocol protocol' : Protocol}
    {url url' : UrlText} {variant variant' : String}
    (h : proxyReference sha256 protocol url.text variant =
      proxyReference sha256 protocol' url'.text variant') :
    protocol = protocol' ∧
      sha256 (proxyPreimage url variant) = sha256 (proxyPreimage url' variant') := by
  have hhex : ∀ digest : Digest, (hexEncode digest.bytes).length = 64 := by
    intro digest
    rw [hexEncode, List.length_flatMap]
    simp [digest.length_eq]
  obtain ⟨hstart, hdigest⟩ := List.append_inj' h (by rw [hhex, hhex])
  refine ⟨proxyPrefix_inj hstart, ?_⟩
  have hbytes := hexEncode_inj hdigest
  exact congrArg ArtifactId.digest (ArtifactId.ext_bytes (a := ⟨_⟩) (b := ⟨_⟩) hbytes)

/-! ## The namespaces -/

/-- A valid reference has no colon. -/
theorem Reference.not_mem (reference : Reference) : (58 : UInt8) ∉ reference.value := by
  intro hcolon
  have hvalid := reference.valid
  rw [Reference.isValid, Bool.and_eq_true, List.all_eq_true] at hvalid
  have hbyte := hvalid.2 58 hcolon
  revert hbyte
  decide

/-- **Names of different referents differ**: two of them have one stored name only if they are the
same, or two targets of one protocol that SHA-256 does not tell apart; and what is hashed for a
target determines its URL and its variant. -/
theorem reference_namespaces (sha256 : Bytes → Digest) :
    (∀ r r' : Referent, r.name sha256 = r'.name sha256 → r = r' ∨ Referent.Collide sha256 r r') ∧
    ∀ url variant url' variant', proxyPreimage url variant = proxyPreimage url' variant' →
      url = url' ∧ variant = variant' := by
  have hother : ∀ (r : Referent) (key : BuildKey), (∀ key', r ≠ .build key') →
      r.name sha256 ≠ key.reference := by
    intro r key hr
    refine otherReference_ne ?_ key
    cases r with
    | api reference => exact Bool.or_eq_true_iff.mpr (.inl reference.valid)
    | build key' => exact absurd rfl (hr key')
    | proxy protocol url variant =>
      exact Bool.or_eq_true_iff.mpr (.inr (isPrefixOf_proxyReference _ _ _ _))
  have hapi : ∀ (reference : Reference) protocol (url : UrlText) variant,
      reference.value ≠ proxyReference sha256 protocol url.text variant := by
    intro reference protocol url variant h
    have hpre := isPrefixOf_proxyReference sha256 protocol url.text variant
    rw [← h, List.isPrefixOf_iff_prefix] at hpre
    have hcolon : (58 : UInt8) ∈ "proxy:".toUTF8.toList := by decide +kernel
    exact reference.not_mem (hpre.subset hcolon)
  refine ⟨fun r r' h => ?_, fun _ _ _ _ => proxyPreimage_inj⟩
  cases r with
  | api reference =>
    cases r' with
    | api reference' =>
      obtain ⟨value, hvalid⟩ := reference
      obtain ⟨value', hvalid'⟩ := reference'
      obtain rfl : value = value' := h
      exact .inl rfl
    | build key' => exact absurd h (hother (.api reference) key' nofun)
    | proxy protocol' url' variant' => exact absurd h (hapi reference protocol' url' variant')
  | build key =>
    cases r' with
    | api reference' => exact absurd h.symm (hother (.api reference') key nofun)
    | build key' => exact .inl (congrArg Referent.build (BuildKey.reference_inj h))
    | proxy protocol' url' variant' =>
      exact absurd h.symm (hother (.proxy protocol' url' variant') key nofun)
  | proxy protocol url variant =>
    cases r' with
    | api reference' => exact absurd h.symm (hapi reference' protocol url variant)
    | build key' => exact absurd h (hother (.proxy protocol url variant) key' nofun)
    | proxy protocol' url' variant' =>
      obtain ⟨hprotocol, hdigest⟩ := proxyReference_inj h
      by_cases hsame : proxyPreimage url variant = proxyPreimage url' variant'
      · obtain ⟨rfl, rfl⟩ := proxyPreimage_inj hsame
        rw [hprotocol]
        exact .inl rfl
      · exact .inr ⟨hprotocol, hsame, hdigest⟩

end Flywheel
