import Flywheel.Shard.Machine

/-!
# A concrete environment

Concrete runs need concrete bytes. `sampleEnv` behaves on them as the real functions do: a
zstd frame is a header without content size, one raw block and no checksum, which is what
the encoder writes for a body too short to compress; the digest of the one-byte body `a` is
its SHA-256; uploads are named by the text of a ULID, here the thread's own.
-/

set_option autoImplicit false

namespace Flywheel

open Lib

/-- The magic number, the frame header descriptor and the window descriptor. -/
def zstdHeader : Bytes := [0x28, 0xb5, 0x2f, 0xfd, 0x00, 0x58]

/-- A frame of one last, raw block; its header is three little-endian bytes. -/
def rawFrame (body : Bytes) : Bytes :=
  let header := body.length * 8 + 1
  zstdHeader ++ [UInt8.ofNat header, UInt8.ofNat (header / 256), UInt8.ofNat (header / 65536)] ++
    body

/-- SHA-256 of the body `a`. -/
def sampleDigest : Digest where
  bytes := (beDigits 256 32
    0xca978112ca1bbdcafac231b39a23dc4da786eff8147c4e72b9807785afee48bb).map UInt8.ofNat
  length_eq := by simp

/-- A digest that is not the body `a`'s. -/
def otherDigest : Digest := ⟨List.replicate 32 0, length_zeros⟩

def sampleEnv : Env (BitVec 128) where
  sha256 body := if body = [97] then sampleDigest else otherDigest
  zstdEncode chunks := rawFrame chunks.flatten
  zstdDecode bytes := if bytes.take 6 = zstdHeader then some (bytes.drop 9) else none
  zstd_roundtrip chunks := by simp [rawFrame, zstdHeader]
  stripeHash c _ := c.ulid.toNat
  partName u := (ChannelId.mk u).asKey ++ [46, 112, 97, 114, 116]
  partName_inj _ _ h := congrArg ChannelId.ulid (ChannelId.asKey_inj (List.append_cancel_right h))

/-- The artifact whose body is `a`. -/
def sampleArtifact : ArtifactId := .fromDigest sampleDigest

/-- An upload of the body `a` to a channel. -/
def sampleUpload (c : ChannelId) (durability : Durability) (encoding : StoredEncoding) :
    PublishRequest where
  channel := c
  target := .byId sampleArtifact
  contentType := none
  stream := [[97]]
  durability := durability
  encoding := encoding

/-- Thread `i` takes `n` steps at time `now`. -/
def steps (i : BitVec 128) (now : UInt64) (n : Nat) : List (Action (BitVec 128)) :=
  List.replicate n (.thread i (.run now))

/-- Run a schedule on the shard of a new data directory, checking `ok` at each action. -/
def sampleRun (ok : Shard (BitVec 128) → Action (BitVec 128) → Bool)
    (schedule : List (Action (BitVec 128))) : Option (Shard (BitVec 128)) :=
  System.exec (Shard.act sampleEnv) ok (Shard.fresh _ 100 0) schedule

/-- A schedule that runs to its end is a run to a state with the properties checked there. -/
theorem steps_of_sample {G : Shard (BitVec 128) → Action (BitVec 128) → Prop}
    (ok : Shard (BitVec 128) → Action (BitVec 128) → Bool) (hok : ∀ p a, ok p a = true → G p a)
    {p : Shard (BitVec 128)} {schedule : List (Action (BitVec 128))}
    {P : Shard (BitVec 128) → Bool}
    (h : (System.exec (Shard.act sampleEnv) ok p schedule).any P = true) :
    ∃ p', (shard sampleEnv).Steps G p p' ∧ P p' = true := by
  obtain ⟨p', hp', hP⟩ := (Option.any_eq_true _ _).mp h
  exact ⟨p', System.steps_of_exec (fun _ _ _ => Shard.step_of_act) hok hp', hP⟩

theorem reach_of_sampleRun {G : Shard (BitVec 128) → Action (BitVec 128) → Prop}
    (ok : Shard (BitVec 128) → Action (BitVec 128) → Bool) (hok : ∀ p a, ok p a = true → G p a)
    (schedule : List (Action (BitVec 128))) (P : Shard (BitVec 128) → Bool)
    (h : (sampleRun ok schedule).any P = true) :
    ∃ p, (shard sampleEnv).Reach G p ∧ P p = true := by
  obtain ⟨p, hp, hP⟩ := steps_of_sample ok hok h
  exact ⟨p, ⟨_, ⟨_, _, rfl⟩, hp⟩, hP⟩

/-! ## Runs of a few threads -/

def Action.within {ι : Type} [DecidableEq ι] (L : List ι) : Action ι → Bool
  | .thread i _ => L.contains i
  | _ => true

/-- Only the threads in `L` have taken up an operation. -/
def Busy {ι : Type} (L : List ι) (p : Shard ι) : Prop := ∀ j, j ∉ L → p.task j = .idle

theorem Busy.fresh {ι : Type} (L : List ι) (expirySeconds now : UInt64) :
    Busy L (Shard.fresh ι expirySeconds now) := fun _ _ => rfl

theorem Busy.step {ι : Type} [DecidableEq ι] {E : Env ι} {L : List ι} {p p' : Shard ι}
    {a : Action ι} (h : Busy L p) (ha : a.within L = true) (hstep : (shard E).step p a p') :
    Busy L p' := by
  intro j hj
  cases a with
  | thread i e =>
    have hji : j ≠ i := fun hji => hj (hji ▸ List.contains_iff_mem.mp ha)
    rw [(Shard.fire_eq_some hstep).2 j hji, h j hj]
  | crash =>
    obtain rfl : p' = p.crash := hstep
    simp [Shard.crash, h j hj, Task.lost]
  | losePower d x =>
    obtain ⟨-, -, rfl⟩ := hstep
    simp [Shard.losePower, Shard.crash, h j hj, Task.lost]

/-- A schedule of the threads in `L`, where a condition on all threads needs to be checked
of those only. -/
theorem steps_of_busySample {L : List (BitVec 128)}
    {G : Shard (BitVec 128) → Action (BitVec 128) → Prop}
    (ok : Shard (BitVec 128) → Action (BitVec 128) → Bool)
    (hok : ∀ p a, Busy L p → ok p a = true → G p a) {p : Shard (BitVec 128)} (hp : Busy L p)
    {schedule : List (Action (BitVec 128))} {P : Shard (BitVec 128) → Bool}
    (h : (System.exec (Shard.act sampleEnv) (fun p a => a.within L && ok p a) p schedule).any P =
      true) :
    ∃ p', (shard sampleEnv).Steps G p p' ∧ Busy L p' ∧ P p' = true := by
  obtain ⟨p', hsteps, hP⟩ := steps_of_sample
    (G := fun p a => a.within L = true ∧ ok p a = true) _
    (fun _ _ h => (Bool.and_eq_true _ _).mp h) h
  have hboth : (shard sampleEnv).Steps G p p' ∧ Busy L p' := by
    refine hsteps.preserves (I := fun q => (shard sampleEnv).Steps G p q ∧ Busy L q) ?_
      ⟨Relation.ReflTransGen.refl, hp⟩
    rintro x a y ⟨hx, hbusy⟩ ⟨hwithin, hoka⟩ hxy
    exact ⟨hx.tail ⟨a, hok x a hbusy hoka, hxy⟩, hbusy.step hwithin hxy⟩
  exact ⟨p', hboth.1, hboth.2, hP⟩

end Flywheel
