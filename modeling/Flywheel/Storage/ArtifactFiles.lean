import Flywheel.Channel
import Flywheel.Lib.Disk
import Flywheel.Lib.Keys

/-!
# Artifact files (`src/storage/local/artifact_files.rs`)

The layout below the artifact root: uploads are staged under `<channel>/tmp`, published
bodies live under `<channel>/sha256/<xx>/<yy>/<digest>`. Path components are byte strings.

Two bodies never share a path, a staged file never lies on the way to a published one,
and everything below a channel's directory names that channel. These facts are stated
as disequalities and non-prefixes of paths, the form the disk's lookup lemmas ask for.
-/

set_option autoImplicit false

namespace Flywheel

open Lib Std

abbrev Path : Type := List Bytes

/-- The filesystem below the artifact root. -/
abbrev FsDisk : Type := Disk Bytes UInt8

/-- Paths are ordered component by component. -/
instance : TransOrd Path := inferInstanceAs (TransOrd (List (List UInt8)))

/-- The component `sha256`. -/
def sha256Component : Bytes := [115, 104, 97, 50, 53, 54]

/-- The component `tmp`. -/
def tmpComponent : Bytes := [116, 109, 112]

def channelDir (c : ChannelId) : Path := [c.asKey]

def tmpDir (c : ChannelId) : Path := [c.asKey, tmpComponent]

/-- The staged file of one upload; `name` is the text of a fresh ULID with `.part`. -/
def tmpPath (c : ChannelId) (name : Bytes) : Path := [c.asKey, tmpComponent, name]

/-- The directory a published body lies in: two levels of sharding. -/
def shardDir (c : ChannelId) (a : ArtifactId) : Path :=
  let digest := hexEncode a.digest.bytes
  [c.asKey, sha256Component, digest.take 2, (digest.drop 2).take 2]

/-- `ArtifactFiles::path`. -/
def path (c : ChannelId) (a : ArtifactId) : Path :=
  shardDir c a ++ [hexEncode a.digest.bytes]

@[simp] theorem length_path (c : ChannelId) (a : ArtifactId) : (path c a).length = 5 := rfl

@[simp] theorem length_tmpPath (c : ChannelId) (n : Bytes) : (tmpPath c n).length = 3 := rfl

@[simp] theorem path_ne_nil (c : ChannelId) (a : ArtifactId) : path c a ≠ [] := by
  simp [path]

@[simp] theorem dropLast_path (c : ChannelId) (a : ArtifactId) :
    (path c a).dropLast = shardDir c a := by
  simp [path]

@[simp] theorem path_inj {c c' : ChannelId} {a a' : ArtifactId} :
    path c a = path c' a' ↔ c = c' ∧ a = a' := by
  constructor
  · intro h
    obtain ⟨hdir, hname⟩ := List.append_inj h rfl
    have hc : c.asKey = c'.asKey := (List.cons.inj hdir).1
    have hd := hexEncode_inj (List.cons.inj hname).1
    exact ⟨ChannelId.asKey_inj hc, ArtifactId.ext_bytes hd⟩
  · rintro ⟨rfl, rfl⟩
    rfl

@[simp] theorem tmpPath_inj {c c' : ChannelId} {n n' : Bytes} :
    tmpPath c n = tmpPath c' n' ↔ c = c' ∧ n = n' := by
  constructor
  · intro h
    simp only [tmpPath, List.cons.injEq, and_true, true_and] at h
    exact ⟨ChannelId.asKey_inj h.1, h.2⟩
  · rintro ⟨rfl, rfl⟩
    rfl

@[simp] theorem tmpPath_ne_path (c c' : ChannelId) (n : Bytes) (a : ArtifactId) :
    tmpPath c n ≠ path c' a := by
  intro h
  simpa using congrArg List.length h

@[simp] theorem path_ne_tmpPath (c c' : ChannelId) (n : Bytes) (a : ArtifactId) :
    path c' a ≠ tmpPath c n :=
  (tmpPath_ne_path c c' n a).symm

/-- A published body lies on the way to no other. -/
theorem path_prefix_path {c c' : ChannelId} {a a' : ArtifactId}
    (h : path c a <+: path c' a') : c = c' ∧ a = a' :=
  path_inj.mp (h.eq_of_length rfl)

/-- A staged file lies on the way to no published body. -/
theorem not_tmpPath_prefix_path (c c' : ChannelId) (n : Bytes) (a : ArtifactId) :
    ¬ tmpPath c n <+: path c' a := by
  intro h
  have hsecond : tmpComponent = sha256Component := by
    have := List.IsPrefix.getElem h (i := 1) (by simp)
    simpa [tmpPath, path, shardDir] using this
  exact absurd hsecond (by decide)

/-- What lies below a channel's directory names the channel first. -/
theorem channelDir_prefix_iff {c : ChannelId} {p : Path} :
    channelDir c <+: p ↔ p.head? = some c.asKey := by
  cases p with
  | nil => simp [channelDir]
  | cons x xs => simp [channelDir, List.cons_prefix_cons, eq_comm]

@[simp] theorem not_path_prefix_shardDir (c c' : ChannelId) (a a' : ArtifactId) :
    ¬ path c a <+: shardDir c' a' := fun h => by
  simpa [shardDir] using h.length_le

@[simp] theorem not_path_prefix_tmpDir (c c' : ChannelId) (a : ArtifactId) :
    ¬ path c a <+: tmpDir c' := fun h => by
  simpa [tmpDir] using h.length_le

@[simp] theorem not_tmpPath_prefix_tmpDir (c c' : ChannelId) (n : Bytes) :
    ¬ tmpPath c n <+: tmpDir c' := fun h => by
  simpa [tmpDir] using h.length_le

@[simp] theorem not_tmpPath_prefix_shardDir (c c' : ChannelId) (n : Bytes) (a : ArtifactId) :
    ¬ tmpPath c n <+: shardDir c' a := fun h =>
  not_tmpPath_prefix_path c c' n a (h.trans (List.prefix_append _ _))

theorem channelDir_prefix_path {c c' : ChannelId} {a : ArtifactId} :
    channelDir c <+: path c' a ↔ c = c' := by
  rw [channelDir_prefix_iff]
  constructor
  · intro h
    exact (ChannelId.asKey_inj (by simpa [path, shardDir] using h)).symm
  · rintro rfl
    rfl

theorem channelDir_prefix_tmpPath {c c' : ChannelId} {n : Bytes} :
    channelDir c <+: tmpPath c' n ↔ c = c' := by
  rw [channelDir_prefix_iff]
  constructor
  · intro h
    exact (ChannelId.asKey_inj (by simpa [tmpPath] using h)).symm
  · rintro rfl
    rfl

/-- Whether a path names a file of a `tmp` directory. -/
def isTmpPath (p : Path) : Bool := p.length == 3 && p[1]? == some tmpComponent

@[simp] theorem isTmpPath_path (c : ChannelId) (a : ArtifactId) : isTmpPath (path c a) = false := by
  simp [isTmpPath]

@[simp] theorem isTmpPath_tmpPath (c : ChannelId) (n : Bytes) : isTmpPath (tmpPath c n) = true := by
  simp [isTmpPath, tmpPath]

/-- Nothing on the way to a published body is a staged file. -/
theorem isTmpPath_of_isPrefix {c : ChannelId} {a : ArtifactId} {q : Path} (h : q <+: path c a) :
    isTmpPath q = false := by
  by_contra htmp
  obtain ⟨hlen, hsecond⟩ : q.length = 3 ∧ q[1]? = some tmpComponent := by
    simpa [isTmpPath] using htmp
  rw [List.prefix_iff_eq_take.mp h, hlen] at hsecond
  have hcomponent : sha256Component = tmpComponent := by
    simpa [path, shardDir] using hsecond
  exact absurd hcomponent (by decide)

/-- `remove_temporary_files`: startup empties every `tmp` directory. -/
def removeTemporaryFiles (d : FsDisk) : FsDisk :=
  eraseWhere (fun p n => isTmpPath p && n.kind != .dir) d

theorem removeTemporaryFiles_of_not_tmp (d : FsDisk) {p : Path} (hp : isTmpPath p = false) :
    (removeTemporaryFiles d)[p]? = d[p]? := by
  rw [removeTemporaryFiles, eraseWhere_apply]
  simp [hp]

/-- After startup no file is left in a `tmp` directory. -/
theorem removeTemporaryFiles_of_tmp (d : FsDisk) {p : Path} (hp : isTmpPath p = true)
    (content : Bytes) (synced : Bool) :
    (removeTemporaryFiles d).kindAt p ≠ some (.file content synced) := by
  rw [Disk.kindAt, removeTemporaryFiles, eraseWhere_apply]
  cases hd : d[p]? with
  | none => simp
  | some n =>
    by_cases hn : n.kind = .dir
    · simp [hp, hn]
    · simp [hp, hn]

/-! ## Errors -/

/-- The kinds of `std::io::Error` that the source tells apart. -/
inductive IoErrorKind where
  | notFound
  | alreadyExists
  | other
  deriving DecidableEq

inductive LocalError where
  | io (kind : IoErrorKind)
  | stream (message : String)
  | tooLarge
  | outOfSpace
  | digestMismatch
  | invalidChannelDirectory (component : String)
  deriving DecidableEq

end Flywheel
