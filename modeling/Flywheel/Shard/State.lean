import Flywheel.Lib.Journal
import Flywheel.Lib.Locks
import Flywheel.Lib.Transition
import Flywheel.Storage.ArtifactFiles
import Flywheel.Storage.Metadata

/-!
# The state of one shard

What the concurrent operations of a shard share:

- the metadata store, with the earlier states a loss of power may fall back to;
- the filesystem below the artifact root;
- the stripes (`cache/stripes.rs`), 512 mutexes picked by a hash of channel and digest;
- the channel gates (`channel/service.rs`): a map from channels to shared
  readers-writer locks. `gates` names the current lock of a channel and `locks` holds the
  state of every lock ever made, since an operation may still hold one that was forgotten.

`Env` collects what the shard takes from outside the repository: SHA-256, the zstd
encoder and decoder, the hash behind the stripes and the fresh ULIDs that name uploads.
-/

set_option autoImplicit false

namespace Flywheel

open Lib

/-! ## The environment -/

structure Env (ι : Type) where
  sha256 : Bytes → Digest
  /-- The frame the encoder writes for a stream; it may depend on the chunks. -/
  zstdEncode : List Bytes → Bytes
  zstdDecode : Bytes → Option Bytes
  zstd_roundtrip : ∀ chunks, zstdDecode (zstdEncode chunks) = some chunks.flatten
  stripeHash : ChannelId → ArtifactId → Nat
  /-- The name of the upload that thread `i` stages. -/
  partName : ι → Bytes
  partName_inj : Function.Injective partName

namespace Env

variable {ι : Type} (E : Env ι)

/-- The bytes `StageWriter` writes for a stream. -/
def encode : StoredEncoding → List Bytes → Bytes
  | .identity, chunks => chunks.flatten
  | .zstd, chunks => E.zstdEncode chunks

def decode : StoredEncoding → Bytes → Option Bytes
  | .identity, bytes => some bytes
  | .zstd, bytes => E.zstdDecode bytes

@[simp] theorem decode_encode (e : StoredEncoding) (chunks : List Bytes) :
    E.decode e (E.encode e chunks) = some chunks.flatten := by
  cases e with
  | identity => rfl
  | zstd => exact E.zstd_roundtrip chunks

/-- `Stripes::artifact`: the cell of the stripe array. -/
def stripe (c : ChannelId) (a : ArtifactId) : Nat := E.stripeHash c a % 512

end Env

/-! ## Shared state -/

structure Shared (ι : Type) where
  store : Journal RocksMetadata
  disk : FsDisk
  stripes : Mutexes ι
  gates : ChannelId → Option Nat
  nextGate : Nat
  locks : Nat → RwLock ι
  /-- The channel identifiers that were drawn so far; a fresh ULID is none of them. -/
  issued : ChannelId → Bool

namespace Shared

variable {ι : Type} (s : Shared ι)

/-- The visible record of an artifact. -/
def record (c : ChannelId) (a : ArtifactId) : Option ArtifactMetadata :=
  s.store.current.artifact c a

/-- The registry record of a channel. -/
def channel (c : ChannelId) : Option ChannelRecord := s.store.current.channel c

/-- What is at a path: a directory, or a file and whether it was fsynced. -/
def kindAt (p : Path) : Option (Kind UInt8) := s.disk.kindAt p

/-- The content of the published body of an artifact. -/
def body (c : ChannelId) (a : ArtifactId) : Option Bytes := s.disk.content (path c a)

theorem body_eq (c : ChannelId) (a : ArtifactId) :
    s.body c a = (s.kindAt (path c a)).bind Kind.bytes := rfl

theorem body_isSome {c : ChannelId} {a : ArtifactId} (h : s.kindAt (path c a) ≠ some .dir) :
    (s.body c a).isSome = (s.kindAt (path c a)).isSome := by
  rw [body_eq]
  cases hk : s.kindAt (path c a) with
  | none => rfl
  | some k =>
    cases k with
    | dir => exact absurd hk h
    | file content synced => rfl

/-! ### Updates -/

def onDisk (f : FsDisk → FsDisk) : Shared ι := { s with disk := f s.disk }

/-- Do what only the durable contract pays for: an fsync. -/
def syncDisk (durability : Durability) (f : FsDisk → FsDisk) : Shared ι :=
  { s with disk := match durability with
      | .durable => f s.disk
      | .bestEffort => s.disk }

theorem syncDisk_kindAt {durability : Durability} {f : FsDisk → FsDisk} {p : Path}
    (h : (f s.disk).kindAt p = s.disk.kindAt p) :
    (s.syncDisk durability f).disk.kindAt p = s.disk.kindAt p := by
  cases durability with
  | durable => exact h
  | bestEffort => rfl

/-- Write a batch with the durability the caller asked for (`write`, `write_sync`). -/
def commit (durability : Durability) (batch : RocksMetadata → RocksMetadata) : Shared ι :=
  { s with store := match durability with
      | .durable => s.store.writeSync batch
      | .bestEffort => s.store.write batch }

@[simp] theorem commit_current (durability : Durability) (batch : RocksMetadata → RocksMetadata) :
    (s.commit durability batch).store.current = batch s.store.current := by
  cases durability <;> rfl

theorem commit_record (durability : Durability) (batch : RocksMetadata → RocksMetadata)
    (c : ChannelId) (a : ArtifactId) :
    (s.commit durability batch).record c a = (batch s.store.current).artifact c a := by
  rw [record, commit_current]

/-- `ChannelGates::gate`: the channel's lock, made on first use. -/
def gate (c : ChannelId) : Shared ι × Nat :=
  let g := (s.gates c).getD s.nextGate
  ({ s with
    gates := Function.update s.gates c (some g)
    nextGate := if (s.gates c).isSome then s.nextGate else s.nextGate + 1 }, g)

/-- `ChannelGates::forget`. -/
def forget (c : ChannelId) : Shared ι := { s with gates := Function.update s.gates c none }

def lockStripe (k : Nat) (i : ι) : Option (Shared ι) :=
  (s.stripes.lock k i).map fun m => { s with stripes := m }

def unlockStripe (k : Nat) : Shared ι := { s with stripes := s.stripes.unlock k }

def unlockWrite (g : Nat) : Shared ι :=
  { s with locks := Function.update s.locks g (s.locks g).releaseWrite }

variable [DecidableEq ι]

def lockRead (g : Nat) (i : ι) : Option (Shared ι) :=
  ((s.locks g).read i).map fun l => { s with locks := Function.update s.locks g l }

def lockWrite (g : Nat) (i : ι) : Option (Shared ι) :=
  ((s.locks g).write i).map fun l => { s with locks := Function.update s.locks g l }

def unlockRead (g : Nat) (i : ι) : Shared ι :=
  { s with locks := Function.update s.locks g ((s.locks g).releaseRead i) }

/-! ### What a process and a machine lose -/

/-- What a new process starts from: the locks are gone, and startup clears the staging
directories before it serves. -/
def restart : Shared ι :=
  { s with
    disk := removeTemporaryFiles s.disk
    stripes := Mutexes.free
    gates := fun _ => none
    locks := fun _ => RwLock.free }

omit [DecidableEq ι] in
theorem restart_kindAt {p : Path} (hp : isTmpPath p = false) : s.restart.kindAt p = s.kindAt p :=
  Disk.kindAt_congr (removeTemporaryFiles_of_not_tmp s.disk hp)

end Shared

end Flywheel
