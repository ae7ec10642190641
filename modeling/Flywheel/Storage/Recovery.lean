import Flywheel.Lib.Walk
import Flywheel.Storage.ArtifactFiles
import Flywheel.Storage.Metadata
import Mathlib.Data.Set.Card

/-!
# Startup recovery (`reconcile`, `remove_temporary_files`, `orphan_scan`)

At startup a shard empties its staging directories, walks over up to `orphan_scan_limit` final
files and removes those without a record. The walk goes down four levels of directories and looks
at the limit before each entry; once it is reached, the loops around return at their next entry.
It is `Lib.collect`, nested. `read_dir` lists a directory in any order.

- `Canonical`: the disks that a shard writes; every entry is a directory or a file of the layout.
- `removeTemporaryFiles_eq`: the loops over the staging directories do what
  `Flywheel.removeTemporaryFiles` says.
- `orphanScan_eq`: the scan returns the first identities of `finals`, which lists every final
  file once.
-/

set_option autoImplicit false

namespace Flywheel

open Lib Std

/-! ## Filesystem calls -/

/-- `read_dir`; below a file there is no directory to be missing. -/
def readDir (order : Order Bytes UInt8) (d : FsDisk) (p : Path) :
    Except IoErrorKind (List (Bytes × Kind UInt8)) :=
  if d.isDir p then .ok (order.sort p (d.entries p))
  else if p.inits.any fun q => (d.kindAt q).any (· ≠ .dir) then .error .other
  else .error .notFound

/-- `remove_file`. -/
def removeFile (d : FsDisk) (p : Path) : Except IoErrorKind FsDisk :=
  match d.kindAt p with
  | some (.file _ _) => .ok (d.unlink p)
  | some .dir => .error .other
  | none => .error .notFound

/-- The text of a file name; no identifier has a character beyond ASCII. -/
def componentText (name : Bytes) : String := String.ofList (name.map fun b => Char.ofNat b.toNat)

namespace ArtifactFiles

variable (order : Order Bytes UInt8)

/-- `ArtifactFiles::remove`. -/
def remove (c : ChannelId) (a : ArtifactId) (d : FsDisk) : Except LocalError FsDisk :=
  match removeFile d (path c a) with
  | .ok d => .ok d
  | .error .notFound => .ok d
  | .error kind => .error (.io kind)

/-! ## Staging directories -/

/-- The inner loop of `remove_temporary_files`. -/
def removeFilesIn (directory : Path) :
    List (Bytes × Kind UInt8) → FsDisk → Except LocalError FsDisk
  | [], d => .ok d
  | (name, .file _ _) :: files, d =>
    match removeFile d (directory ++ [name]) with
    | .ok d => removeFilesIn directory files d
    | .error kind => .error (.io kind)
  | (_, .dir) :: files, d => removeFilesIn directory files d

/-- The outer loop of `remove_temporary_files`. -/
def removeTemporaryIn : List (Bytes × Kind UInt8) → FsDisk → Except LocalError FsDisk
  | [], d => .ok d
  | (name, _) :: channels, d =>
    match readDir order d [name, tmpComponent] with
    | .ok files =>
      match removeFilesIn [name, tmpComponent] files d with
      | .ok d => removeTemporaryIn channels d
      | .error e => .error e
    | .error .notFound => removeTemporaryIn channels d
    | .error kind => .error (.io kind)

def removeTemporaryFiles (d : FsDisk) : Except LocalError FsDisk :=
  match readDir order d [] with
  | .ok channels => removeTemporaryIn order channels d
  | .error .notFound => .ok d
  | .error kind => .error (.io kind)

/-! ## The orphan scan -/

abbrev Found : Type := List (ChannelId × ArtifactId)

/-- An entry of a shard directory. -/
def scanFile (c : ChannelId) (file : Bytes × Kind UInt8) (found : Found) :
    Except LocalError Found :=
  match file.2 with
  | .dir => .ok found
  | .file _ _ =>
    match ArtifactId.parse "sha256".toUTF8.toList file.1 with
    | some artifact => .ok (found ++ [(c, artifact)])
    | none => .ok found

/-- The entries of `directory`, if it is one: a missing or unreadable one is an error. -/
def scanDirectory (limit : Nat) (d : FsDisk) (directory : Path)
    (visit : Bytes × Kind UInt8 → Found → Except LocalError Found) (found : Found) :
    Except LocalError Found :=
  match readDir order d directory with
  | .ok entries => collect limit visit entries found
  | .error kind => .error (.io kind)

/-- An entry that is walked into if it is a directory. -/
def scanBelow (limit : Nat) (d : FsDisk) (directory : Path)
    (visit : Path → Bytes × Kind UInt8 → Found → Except LocalError Found)
    (entry : Bytes × Kind UInt8) (found : Found) : Except LocalError Found :=
  match entry.2 with
  | .file _ _ => .ok found
  | .dir =>
    scanDirectory order limit d (directory ++ [entry.1]) (visit (directory ++ [entry.1])) found

def scanChannelFiles (limit : Nat) (d : FsDisk) (c : ChannelId) (sha256Dir : Path)
    (found : Found) : Except LocalError Found :=
  match readDir order d sha256Dir with
  | .error .notFound => .ok found
  | .error kind => .error (.io kind)
  | .ok prefixes =>
    collect limit
      (scanBelow order limit d sha256Dir fun shard =>
        scanBelow order limit d shard fun _ => scanFile c) prefixes found

/-- An entry of the artifact root. -/
def scanChannel (limit : Nat) (d : FsDisk) (entry : Bytes × Kind UInt8) (found : Found) :
    Except LocalError Found :=
  match entry.2 with
  | .file _ _ => .ok found
  | .dir =>
    match ChannelId.parse (componentText entry.1) with
    | some c => scanChannelFiles order limit d c [entry.1, sha256Component] found
    | none => .error (.invalidChannelDirectory (componentText entry.1))

def orphanScan (limit : Nat) (d : FsDisk) : Except LocalError Found :=
  match readDir order d [] with
  | .ok channels => collect limit (scanChannel order limit d) channels []
  | .error .notFound => .ok []
  | .error kind => .error (.io kind)

end ArtifactFiles

/-! ## Reconciliation -/

namespace CacheService

/-- The loop of `reconcile`: the record is looked up again under the stripe. -/
def reconcileLoop (store : RocksMetadata) :
    List (ChannelId × ArtifactId) → FsDisk → Except LocalError FsDisk
  | [], d => .ok d
  | (c, a) :: rest, d =>
    if (store.artifact c a).isSome then reconcileLoop store rest d
    else if (store.artifact c a).isNone then
      match ArtifactFiles.remove c a d with
      | .ok d => reconcileLoop store rest d
      | .error e => .error e
    else reconcileLoop store rest d

/-- `CacheService::reconcile`, on the store and the disk. -/
def reconcile (order : Order Bytes UInt8) (orphanScanLimit : Nat) (store : RocksMetadata)
    (d : FsDisk) : Except LocalError (RocksMetadata × FsDisk) :=
  match ArtifactFiles.removeTemporaryFiles order d with
  | .error e => .error e
  | .ok d =>
    match ArtifactFiles.orphanScan order orphanScanLimit d with
    | .error e => .error e
    | .ok found => (reconcileLoop store found d).map (store, ·)

end CacheService

/-! ## The disks of a shard -/

/-- Channel directories with staged and final files, and the directories on the way to them. -/
structure Canonical (d : FsDisk) : Prop where
  root : d.kindAt [] = none
  dir : ∀ p, d.kindAt p = some .dir →
    ∃ c, p = channelDir c ∨ p = tmpDir c ∨ ∃ a, p <+: shardDir c a
  file : ∀ p content synced, d.kindAt p = some (.file content synced) →
    ∃ c, (∃ name, p = tmpPath c name) ∨ ∃ a, p = path c a
  parent : ∀ p, (d.kindAt p).isSome → p.dropLast = [] ∨ d.kindAt p.dropLast = some .dir

namespace Canonical

variable {d : FsDisk}

theorem isDir_iff {p : Path} (hp : p ≠ []) : d.isDir p = true ↔ d.kindAt p = some .dir := by
  rw [Disk.isDir, Disk.kindAt]
  cases d[p]? with
  | none => simp [hp]
  | some n =>
    obtain ⟨kind, linked⟩ := n
    cases kind <;> simp [hp]

theorem isDir_root : d.isDir [] = true := rfl

/-- What lies in the root is the directory of a channel. -/
theorem channel_of_root (h : Canonical d) {name : Bytes} {kind : Kind UInt8}
    (hkind : d.kindAt [name] = some kind) : kind = .dir ∧ ∃ c : ChannelId, name = c.asKey := by
  cases kind with
  | file content synced =>
    obtain ⟨c, ⟨name', hp⟩ | ⟨a, hp⟩⟩ := h.file _ _ _ hkind
    · simpa using congrArg List.length hp
    · simpa using congrArg List.length hp
  | dir =>
    refine ⟨rfl, ?_⟩
    obtain ⟨c, hp | hp | ⟨a, hp⟩⟩ := h.dir _ hkind
    · exact ⟨c, by simpa [channelDir] using hp⟩
    · exact absurd (congrArg List.length hp) (by simp [tmpDir])
    · refine ⟨c, ?_⟩
      have hhead := hp.getElem (i := 0) (by simp)
      simpa [shardDir] using hhead

/-- Files lie three or five levels down. -/
theorem length_of_file (h : Canonical d) {p : Path} {content : Bytes} {synced : Bool}
    (hfile : d.kindAt p = some (.file content synced)) : p.length = 3 ∨ p.length = 5 := by
  obtain ⟨c, ⟨name, rfl⟩ | ⟨a, rfl⟩⟩ := h.file _ _ _ hfile
  · exact .inl rfl
  · exact .inr rfl

theorem parent_dir (h : Canonical d) {p : Path} {name : Bytes} {kind : Kind UInt8} (hp : p ≠ [])
    (hkind : d.kindAt (p ++ [name]) = some kind) : d.kindAt p = some .dir := by
  rcases h.parent _ (Option.isSome_of_eq_some hkind) with hroot | hdir
  · rw [List.dropLast_concat] at hroot
    exact absurd hroot hp
  · rwa [List.dropLast_concat] at hdir

/-- Every path to an entry leads through directories. -/
theorem ancestor (h : Canonical d) {p : Path} (hp : p ≠ []) (rest : Path)
    (hsome : (d.kindAt (p ++ rest)).isSome) : (d.kindAt p).isSome := by
  induction rest using List.reverseRecOn with
  | nil => rwa [List.append_nil] at hsome
  | append_singleton rest name ih =>
    obtain ⟨kind, hkind⟩ := Option.isSome_iff_exists.mp hsome
    rw [← List.append_assoc] at hkind
    exact ih (Option.isSome_of_eq_some (h.parent_dir (List.append_ne_nil_of_left_ne_nil hp _) hkind))

end Canonical

/-! ## The staging directories are emptied -/

section Staged

variable {d : FsDisk} (order : Order Bytes UInt8)

/-- A listing names what is in the directory. -/
theorem readDir_ok {p : Path} (hdir : d.isDir p = true) :
    ∃ entries, readDir order d p = .ok entries ∧ entries.Perm (d.entries p) :=
  ⟨_, by rw [readDir, if_pos hdir], order.perm p _⟩

theorem readDir_notFound {p : Path} (hdir : d.isDir p = false)
    (hfile : ∀ q, q <+: p → ∀ content synced, d.kindAt q ≠ some (.file content synced)) :
    readDir order d p = .error .notFound := by
  have hno : ¬ (p.inits.any fun q => (d.kindAt q).any (· ≠ .dir)) = true := by
    intro hany
    obtain ⟨q, hq, hkind⟩ := List.any_eq_true.mp hany
    obtain ⟨kind, hkind, hne⟩ := (Option.any_eq_true _ _).mp hkind
    cases kind with
    | dir => simp at hne
    | file content synced => exact hfile q ((List.mem_inits q p).mp hq) content synced hkind
  rw [readDir, hdir, if_neg Bool.false_ne_true, if_neg hno]

/-- `d'` is `d` without the entries that meet `gone`. -/
structure Without (gone : Path → Prop) (d d' : FsDisk) : Prop where
  none : ∀ q, gone q → d'[q]? = none
  same : ∀ q, ¬ gone q → d'[q]? = d[q]?

namespace Without

variable {d d' d'' : FsDisk} {gone gone' : Path → Prop}

theorem refl (d : FsDisk) : Without (fun _ => False) d d := ⟨fun _ h => h.elim, fun _ _ => rfl⟩

theorem unlink (d : FsDisk) (p : Path) : Without (fun q => q = p) d (d.unlink p) := by
  constructor
  · rintro q rfl
    rw [Disk.unlink_apply, if_pos rfl]
  · intro q hq
    rw [Disk.unlink_apply, if_neg (Ne.symm hq)]

theorem trans (h : Without gone d d') (h' : Without gone' d' d'') :
    Without (fun q => gone q ∨ gone' q) d d'' := by
  constructor
  · intro q hq
    by_cases hgone : gone' q
    · exact h'.none q hgone
    · rw [h'.same q hgone]
      exact h.none q (hq.resolve_right hgone)
  · intro q hq
    obtain ⟨hgone, hgone'⟩ := not_or.mp hq
    rw [h'.same q hgone', h.same q hgone]

theorem congr (h : Without gone d d') (hiff : ∀ q, gone q ↔ gone' q) : Without gone' d d' :=
  ⟨fun q hq => h.none q ((hiff q).mpr hq), fun q hq => h.same q fun hg => hq ((hiff q).mp hg)⟩

theorem kindAt (h : Without gone d d') {q : Path} (hq : ¬ gone q) : d'.kindAt q = d.kindAt q :=
  Disk.kindAt_congr (h.same q hq)

/-- What is still there was there. -/
theorem kindAt_of_some (h : Without gone d d') {q : Path} {kind : Kind UInt8}
    (hkind : d'.kindAt q = some kind) : d'.kindAt q = d.kindAt q := by
  refine h.kindAt fun hgone => ?_
  rw [Disk.kindAt, h.none q hgone] at hkind
  cases hkind

end Without

/-- One staging directory is emptied of its files. -/
theorem removeFilesIn_eq {directory : Path} {files : List (Bytes × Kind UInt8)}
    (hnodup : (files.map (·.1)).Nodup)
    (hthere : ∀ name kind, (name, kind) ∈ files → d.kindAt (directory ++ [name]) = some kind) :
    ∃ d', ArtifactFiles.removeFilesIn directory files d = .ok d' ∧
      Without (fun q => ∃ name content synced, (name, Kind.file content synced) ∈ files ∧
        q = directory ++ [name]) d d' := by
  induction files generalizing d with
  | nil => exact ⟨d, rfl, (Without.refl d).congr fun q => by simp⟩
  | cons file files ih =>
    obtain ⟨name, kind⟩ := file
    have hname : name ∉ files.map (·.1) := (List.nodup_cons.mp hnodup).1
    have hrest : (files.map (·.1)).Nodup := (List.nodup_cons.mp hnodup).2
    cases kind with
    | dir =>
      obtain ⟨d', hd', hwithout⟩ := ih hrest fun n k h => hthere n k (List.mem_cons_of_mem _ h)
      exact ⟨d', hd', hwithout.congr fun q => by simp⟩
    | file content synced =>
      have hkind := hthere name _ List.mem_cons_self
      have hother : ∀ n k, (n, k) ∈ files →
          (d.unlink (directory ++ [name])).kindAt (directory ++ [n]) = some k := by
        intro n k hmem
        have hne : directory ++ [n] ≠ directory ++ [name] := by
          intro heq
          have hn : n = name := by simpa using heq
          exact hname (List.mem_map.mpr ⟨(n, k), hmem, hn⟩)
        rw [Disk.kindAt_unlink hne]
        exact hthere n k (List.mem_cons_of_mem _ hmem)
      obtain ⟨d', hd', hwithout⟩ := ih hrest hother
      refine ⟨d', ?_, ((Without.unlink d (directory ++ [name])).trans hwithout).congr fun q => ?_⟩
      · rw [ArtifactFiles.removeFilesIn, removeFile, hkind]
        exact hd'
      · constructor
        · rintro (rfl | ⟨n, c, b, hmem, rfl⟩)
          · exact ⟨name, content, synced, List.mem_cons_self, rfl⟩
          · exact ⟨n, c, b, List.mem_cons_of_mem _ hmem, rfl⟩
        · rintro ⟨n, c, b, hmem, rfl⟩
          rcases List.mem_cons.mp hmem with heq | hmem
          · obtain rfl : n = name := (Prod.mk.inj heq).1
            exact .inl rfl
          · exact .inr ⟨n, c, b, hmem, rfl⟩

/-- A file in one of the staging directories of the channels. -/
def StagedIn (names : List Bytes) (d : FsDisk) (q : Path) : Prop :=
  ∃ name ∈ names, ∃ part content synced, q = [name, tmpComponent, part] ∧
    d.kindAt q = some (.file content synced)

/-- Without some of its files the disk is still one of a shard. -/
theorem Canonical.without {gone : Path → Prop} {d' : FsDisk} (h : Canonical d)
    (hwithout : Without gone d d')
    (hgone : ∀ q, gone q → d.kindAt q ≠ some .dir) : Canonical d' := by
  have hkind : ∀ q kind, d'.kindAt q = some kind → d.kindAt q = some kind := fun q kind hq =>
    (hwithout.kindAt_of_some hq).symm.trans hq
  constructor
  case root =>
    cases hroot : d'.kindAt [] with
    | none => rfl
    | some kind => exact absurd ((hkind [] kind hroot).symm.trans h.root) (by simp)
  case dir => exact fun p hp => h.dir p (hkind p _ hp)
  case file => exact fun p content synced hp => h.file p content synced (hkind p _ hp)
  case parent =>
    intro p hp
    obtain ⟨kind, hsome⟩ := Option.isSome_iff_exists.mp hp
    rcases h.parent p (Option.isSome_of_eq_some (hkind p kind hsome)) with hroot | hdir
    · exact .inl hroot
    · exact .inr ((hwithout.kindAt fun hg => hgone _ hg hdir).trans hdir)

theorem removeTemporaryIn_eq {channels : List (Bytes × Kind UInt8)} (h : Canonical d) :
    ∃ d', ArtifactFiles.removeTemporaryIn order channels d = .ok d' ∧
      Without (StagedIn (channels.map (·.1)) d) d d' := by
  induction channels generalizing d with
  | nil => exact ⟨d, rfl, (Without.refl d).congr fun q => by simp [StagedIn]⟩
  | cons channel channels ih =>
    obtain ⟨name, kind⟩ := channel
    by_cases hdir : d.isDir [name, tmpComponent] = true
    · obtain ⟨files, hfiles, hperm⟩ := readDir_ok order hdir
      have hmem : ∀ n k, (n, k) ∈ files ↔ d.kindAt [name, tmpComponent, n] = some k := fun n k =>
        (hperm.mem_iff).trans Disk.mem_entries
      obtain ⟨d₁, hd₁, hwithout⟩ := @removeFilesIn_eq d [name, tmpComponent] files
        ((hperm.map _).nodup_iff.mpr (Disk.nodup_names d _)) fun n k h => (hmem n k).mp h
      have hcanonical : Canonical d₁ := by
        refine h.without hwithout ?_
        rintro q ⟨n, c, b, hn, rfl⟩ hq
        exact absurd (hq.symm.trans ((hmem n _).mp hn)) (by simp)
      obtain ⟨d', hd', hrest⟩ := ih hcanonical
      refine ⟨d', ?_, (hwithout.trans hrest).congr fun q => ?_⟩
      · rw [ArtifactFiles.removeTemporaryIn, hfiles]
        dsimp only
        rw [hd₁]
        exact hd'
      · constructor
        · rintro (⟨n, c, b, hn, rfl⟩ | ⟨other, hother, n, c, b, rfl, hfile⟩)
          · exact ⟨name, List.mem_cons_self, n, c, b, rfl, (hmem n _).mp hn⟩
          · refine ⟨other, List.mem_cons_of_mem _ hother, n, c, b, rfl, ?_⟩
            rwa [← hwithout.kindAt_of_some hfile]
        · rintro ⟨other, hother, n, c, b, rfl, hfile⟩
          by_cases heq : other = name
          · subst heq
            exact .inl ⟨n, c, b, (hmem n _).mpr hfile, rfl⟩
          · refine .inr ⟨other, (List.mem_cons.mp hother).resolve_left heq, n, c, b, rfl, ?_⟩
            rw [hwithout.kindAt, hfile]
            rintro ⟨n', c', b', -, hq⟩
            exact heq (List.cons.inj hq).1
    · have hmissing : readDir order d [name, tmpComponent] = .error .notFound := by
        refine readDir_notFound order (Bool.eq_false_iff.mpr hdir) fun q hq content synced hfile => ?_
        have hlen : q.length ≤ 2 := hq.length_le
        rcases h.length_of_file hfile with h3 | h5 <;> omega
      obtain ⟨d', hd', hrest⟩ := ih h
      refine ⟨d', ?_, hrest.congr fun q => ?_⟩
      · rw [ArtifactFiles.removeTemporaryIn, hmissing]
        exact hd'
      · constructor
        · rintro ⟨other, hother, hq⟩
          exact ⟨other, List.mem_cons_of_mem _ hother, hq⟩
        · rintro ⟨other, hother, n, c, b, rfl, hfile⟩
          refine ⟨other, (List.mem_cons.mp hother).resolve_left ?_, n, c, b, rfl, hfile⟩
          -- without its directory a channel has no staged file
          rintro rfl
          refine hdir ((Canonical.isDir_iff (by simp)).mpr ?_)
          exact h.parent_dir (p := [other, tmpComponent]) (List.cons_ne_nil _ _) hfile

theorem stagedIn_iff {names : List Bytes}
    (hnames : ∀ name, (d.kindAt [name]).isSome → name ∈ names) (h : Canonical d) {q : Path} :
    StagedIn names d q ↔ d[q]?.any (fun n => isTmpPath q && n.kind != .dir) = true := by
  constructor
  · rintro ⟨name, -, part, content, synced, rfl, hfile⟩
    obtain ⟨n, hn, hkind⟩ := Option.map_eq_some_iff.mp hfile
    rw [hn, Option.any_some, hkind]
    rfl
  · intro hany
    obtain ⟨n, hn, hq⟩ := (Option.any_eq_true _ _).mp hany
    obtain ⟨htmp, hdir⟩ := (Bool.and_eq_true _ _).mp hq
    have hkind : d.kindAt q = some n.kind := by rw [Disk.kindAt, hn, Option.map_some]
    cases hfile : n.kind with
    | dir => simp [hfile] at hdir
    | file content synced =>
      rw [hfile] at hkind
      obtain ⟨c, ⟨part, rfl⟩ | ⟨a, rfl⟩⟩ := h.file _ _ _ hkind
      · have htmpDir : d.kindAt [c.asKey, tmpComponent] = some .dir :=
          h.parent_dir (p := [c.asKey, tmpComponent]) (List.cons_ne_nil _ _) hkind
        have hchannel : d.kindAt [c.asKey] = some .dir :=
          h.parent_dir (p := [c.asKey]) (List.cons_ne_nil _ _) htmpDir
        exact ⟨c.asKey, hnames _ (Option.isSome_of_eq_some hchannel), part, content, synced, rfl,
          hkind⟩
      · simp at htmp

/-- The loops over the staging directories leave what `Flywheel.removeTemporaryFiles` leaves. -/
theorem removeTemporaryFiles_eq (h : Canonical d) :
    ArtifactFiles.removeTemporaryFiles order d = .ok (Flywheel.removeTemporaryFiles d) := by
  obtain ⟨channels, hchannels, hperm⟩ := readDir_ok order (Canonical.isDir_root (d := d))
  obtain ⟨d', hd', hwithout⟩ := removeTemporaryIn_eq order h
  have hnames : ∀ name, (d.kindAt [name]).isSome → name ∈ channels.map (·.1) := by
    intro name hsome
    obtain ⟨kind, hkind⟩ := Option.isSome_iff_exists.mp hsome
    exact List.mem_map.mpr ⟨(name, kind), hperm.mem_iff.mpr (Disk.mem_entries.mpr hkind), rfl⟩
  have hsame : d' = Flywheel.removeTemporaryFiles d := by
    refine ExtTreeMap.ext_getElem? fun q => ?_
    rw [Flywheel.removeTemporaryFiles, eraseWhere_apply]
    by_cases hq : StagedIn (channels.map (·.1)) d q
    · rw [if_pos ((stagedIn_iff hnames h).mp hq), hwithout.none q hq]
    · rw [if_neg fun hany => hq ((stagedIn_iff hnames h).mpr hany), hwithout.same q hq]
  rw [ArtifactFiles.removeTemporaryFiles, hchannels]
  exact hd'.trans (congrArg _ hsame)

end Staged

/-! ## The scan finds every final file once -/

/-- The identities whose final file is there. -/
def finalFiles (d : FsDisk) : Set (ChannelId × ArtifactId) :=
  { x | (d.content (path x.1 x.2)).isSome }

theorem mem_finalFiles {d : FsDisk} {c : ChannelId} {a : ArtifactId} :
    (c, a) ∈ finalFiles d ↔ ∃ content synced, d.kindAt (path c a) = some (.file content synced) := by
  show (d.content (path c a)).isSome = true ↔ _
  rw [Disk.content]
  cases d.kindAt (path c a) with
  | none => simp
  | some kind => cases kind <;> simp [Kind.bytes]

section Scan

variable {d : FsDisk} (order : Order Bytes UInt8) (limit : Nat)

/-- What is on the way to a final file is a directory. -/
theorem Canonical.ancestor_dir (h : Canonical d) {p : Path} {x : ChannelId × ArtifactId} (hp : p ≠ [])
    (hpre : p <+: path x.1 x.2) (hlen : p.length < 5) (hx : x ∈ finalFiles d) :
    d.kindAt p = some .dir := by
  obtain ⟨content, synced, hfile⟩ := mem_finalFiles.mp hx
  obtain ⟨rest, hrest⟩ := hpre
  cases rest with
  | nil =>
    have hfull := congrArg List.length hrest
    rw [List.append_nil, length_path] at hfull
    exact absurd hfull (Nat.ne_of_lt hlen)
  | cons name rest =>
    have hpath : p ++ [name] ++ rest = path x.1 x.2 := by
      rw [List.append_assoc, List.singleton_append, hrest]
    have hsome := h.ancestor (p := p ++ [name]) (by simp) rest (by rw [hpath, hfile]; rfl)
    obtain ⟨kind, hkind⟩ := Option.isSome_iff_exists.mp hsome
    exact h.parent_dir hp hkind

/-- The list names each final file below `p` once. -/
structure Lists (d : FsDisk) (p : Path) (found : ArtifactFiles.Found) : Prop where
  nodup : found.Nodup
  mem : ∀ x, x ∈ found ↔ x ∈ finalFiles d ∧ p <+: path x.1 x.2

/-- The visit adds the final files below `p`, as far as the limit allows. -/
def Scans (d : FsDisk) (p : Path)
    (visit : ArtifactFiles.Found → Except LocalError ArtifactFiles.Found) : Prop :=
  ∃ items, Lists d p items ∧
    ∀ found : ArtifactFiles.Found, found.length < limit →
      visit found = .ok ((found ++ items).take limit)

variable {limit}

/-- Where no final file can be, there is nothing to add. -/
theorem scans_nothing {p : Path} (hp : ∀ x ∈ finalFiles d, ¬ p <+: path x.1 x.2) :
    Scans limit d p .ok := by
  refine ⟨[], ⟨List.nodup_nil, fun x => ?_⟩, fun found hfound => ?_⟩
  · simpa using hp x
  · rw [List.append_nil, List.take_of_length_le (Nat.le_of_lt hfound)]

/-- A directory is scanned if each of its entries is. -/
theorem scans_directory (h : Canonical d) {p : Path} (hdir : d.isDir p = true) (hlen : p.length < 5)
    {visit : Bytes × Kind UInt8 → ArtifactFiles.Found → Except LocalError ArtifactFiles.Found}
    (hvisit : ∀ name kind, d.kindAt (p ++ [name]) = some kind →
      Scans limit d (p ++ [name]) (visit (name, kind))) :
    Scans limit d p (ArtifactFiles.scanDirectory order limit d p visit) := by
  obtain ⟨entries, hentries, hperm⟩ := readDir_ok order hdir
  have hmem : ∀ e, e ∈ entries ↔ d.kindAt (p ++ [e.1]) = some e.2 := fun e =>
    hperm.mem_iff.trans Disk.mem_entries
  have hscans : ∀ e, e ∈ entries → Scans limit d (p ++ [e.1]) (visit e) := fun e he =>
    hvisit e.1 e.2 ((hmem e).mp he)
  choose! items hlists hitems using hscans
  have horigin : ∀ e ∈ entries, ∀ x ∈ items e, (path x.1 x.2)[p.length]? = some e.1 := by
    intro e he x hx
    obtain ⟨rest, hrest⟩ := (((hlists e he).mem x).mp hx).2
    rw [← hrest]
    simp
  refine ⟨entries.flatMap items, ⟨?_, fun x => ?_⟩, fun found hfound => ?_⟩
  · refine nodup_flatMap_of_key ?_ (fun e he => (hlists e he).nodup) horigin
    have hnames := (hperm.map (·.1)).nodup_iff.mpr (Disk.nodup_names d p)
    have hsome := hnames.map (Option.some_injective Bytes)
    rwa [List.map_map] at hsome
  · rw [List.mem_flatMap]
    constructor
    · rintro ⟨e, he, hx⟩
      obtain ⟨hfinal, hpre⟩ := ((hlists e he).mem x).mp hx
      exact ⟨hfinal, (List.prefix_append p [e.1]).trans hpre⟩
    · rintro ⟨hfinal, rest, hrest⟩
      cases rest with
      | nil =>
        have hfull := congrArg List.length hrest
        rw [List.append_nil, length_path] at hfull
        exact absurd hfull (Nat.ne_of_lt hlen)
      | cons name rest =>
        have hpath : p ++ [name] ++ rest = path x.1 x.2 := by
          rw [List.append_assoc, List.singleton_append, hrest]
        obtain ⟨content, synced, hfile⟩ := mem_finalFiles.mp hfinal
        have hsome := h.ancestor (p := p ++ [name]) (by simp) rest (by rw [hpath, hfile]; rfl)
        obtain ⟨kind, hkind⟩ := Option.isSome_iff_exists.mp hsome
        have he : (name, kind) ∈ entries := (hmem (name, kind)).mpr hkind
        exact ⟨(name, kind), he, ((hlists _ he).mem x).mpr ⟨hfinal, rest, hpath⟩⟩
  · rw [ArtifactFiles.scanDirectory, hentries]
    exact collect_eq_take hitems (Nat.le_of_lt hfound)

/-- A file of a shard directory. -/
theorem scans_file (h : Canonical d) {c : ChannelId} {p : Path} {name : Bytes} {kind : Kind UInt8}
    (hlen : p.length = 4) (hc : p.head? = some c.asKey) (hkind : d.kindAt (p ++ [name]) = some kind) :
    Scans limit d (p ++ [name]) (ArtifactFiles.scanFile c (name, kind)) := by
  have hfive : (p ++ [name]).length = 5 := by rw [List.length_append, hlen]; rfl
  cases kind with
  | dir =>
    refine scans_nothing fun x hx hpre => ?_
    have hfinal := mem_finalFiles.mp hx
    rw [← hpre.eq_of_length (hfive.trans (length_path _ _).symm), hkind] at hfinal
    simp at hfinal
  | file content synced =>
    obtain ⟨c', ⟨name', hp⟩ | ⟨a, hp⟩⟩ := h.file _ _ _ hkind
    · rw [hp] at hfive
      cases hfive
    · obtain ⟨hdir, hname⟩ := List.append_inj' (hp.trans rfl : p ++ [name] = shardDir c' a ++ _) rfl
      obtain rfl : name = hexEncode a.digest.bytes := (List.cons.inj hname).1
      obtain rfl : c = c' := ChannelId.asKey_inj (Option.some.inj (hc.symm.trans (by rw [hdir]; rfl)))
      refine ⟨[(c, a)], ⟨List.nodup_singleton _, fun x => ?_⟩, fun found hfound => ?_⟩
      · rw [List.mem_singleton, hp]
        constructor
        · rintro rfl
          exact ⟨mem_finalFiles.mpr ⟨content, synced, hp ▸ hkind⟩, List.prefix_refl _⟩
        · rintro ⟨-, hpre⟩
          obtain ⟨hc, ha⟩ := path_prefix_path hpre
          exact Prod.ext hc.symm ha.symm
      · rw [ArtifactFiles.scanFile, ArtifactId.parse_hexEncode]
        dsimp only
        rw [List.take_of_length_le (by rw [List.length_append]; exact hfound)]

/-- An entry above the files. -/
theorem scans_below (h : Canonical d) {p : Path} {name : Bytes} {kind : Kind UInt8}
    (hlen : p.length < 4) (hkind : d.kindAt (p ++ [name]) = some kind)
    {visit : Path → Bytes × Kind UInt8 → ArtifactFiles.Found →
      Except LocalError ArtifactFiles.Found}
    (hvisit : ∀ name' kind', d.kindAt (p ++ [name] ++ [name']) = some kind' →
      Scans limit d (p ++ [name] ++ [name']) (visit (p ++ [name]) (name', kind'))) :
    Scans limit d (p ++ [name])
      (ArtifactFiles.scanBelow order limit d p visit (name, kind)) := by
  have hshort : (p ++ [name]).length < 5 := by
    rw [List.length_append, List.length_singleton]
    omega
  have hne : p ++ [name] ≠ [] := List.append_ne_nil_of_right_ne_nil _ (List.cons_ne_nil _ _)
  cases kind with
  | file content synced =>
    refine scans_nothing fun x hx hpre => ?_
    have hdir := h.ancestor_dir hne hpre hshort hx
    rw [hkind] at hdir
    cases hdir
  | dir => exact scans_directory order h ((Canonical.isDir_iff hne).mpr hkind) hshort hvisit

/-- A channel without a `sha256` directory has no final file. -/
theorem scans_channelFiles (h : Canonical d) (c : ChannelId) :
    Scans limit d [c.asKey, sha256Component]
      (ArtifactFiles.scanChannelFiles order limit d c [c.asKey, sha256Component]) := by
  have hne : [c.asKey, sha256Component] ≠ [] := List.cons_ne_nil _ _
  by_cases hdir : d.isDir [c.asKey, sha256Component] = true
  · have hsub : ∀ name kind name' kind', d.kindAt ([c.asKey, sha256Component] ++ [name]) = some kind →
        d.kindAt ([c.asKey, sha256Component] ++ [name] ++ [name']) = some kind' →
        Scans limit d ([c.asKey, sha256Component] ++ [name] ++ [name'])
          (ArtifactFiles.scanBelow order limit d ([c.asKey, sha256Component] ++ [name])
            (fun _ => ArtifactFiles.scanFile c) (name', kind')) :=
      fun name kind name' kind' hkind hkind' => scans_below order h (by simp) hkind'
        fun name'' kind'' hkind'' => scans_file h rfl rfl hkind''
    obtain ⟨items, hlists, hscan⟩ := scans_directory order h hdir (by simp)
      fun name kind hkind => @scans_below _ order limit h _ name kind (by simp) hkind
        (fun shard => ArtifactFiles.scanBelow order limit d shard fun _ => ArtifactFiles.scanFile c)
        fun name' kind' hkind' => hsub name kind name' kind' hkind hkind'
    refine ⟨items, hlists, fun found hfound => ?_⟩
    have hfiles := hscan found hfound
    rw [ArtifactFiles.scanDirectory] at hfiles
    rw [ArtifactFiles.scanChannelFiles]
    cases hread : readDir order d [c.asKey, sha256Component] with
    | ok prefixes =>
      rw [hread] at hfiles
      exact hfiles
    | error kind =>
      rw [hread] at hfiles
      cases hfiles
  · have hmissing : readDir order d [c.asKey, sha256Component] = .error .notFound := by
      refine readDir_notFound order (Bool.eq_false_iff.mpr hdir) fun q hq content synced hfile => ?_
      have hlen : q.length ≤ 2 := hq.length_le
      rcases h.length_of_file hfile with h3 | h5 <;> omega
    have hnothing : Scans limit d [c.asKey, sha256Component] .ok := by
      refine scans_nothing fun x hx hpre => hdir ?_
      exact (Canonical.isDir_iff hne).mpr (h.ancestor_dir hne hpre (by simp) hx)
    obtain ⟨items, hlists, hscan⟩ := hnothing
    refine ⟨items, hlists, fun found hfound => ?_⟩
    rw [ArtifactFiles.scanChannelFiles, hmissing]
    exact hscan found hfound

theorem channelDir_prefix_iff_sha256 {c : ChannelId} {x : ChannelId × ArtifactId} :
    [c.asKey, sha256Component] <+: path x.1 x.2 ↔ [c.asKey] <+: path x.1 x.2 := by
  simp [path, shardDir, List.cons_prefix_cons]

theorem scans_channel (h : Canonical d) {name : Bytes} {kind : Kind UInt8}
    (hkind : d.kindAt [name] = some kind) :
    Scans limit d [name] (ArtifactFiles.scanChannel order limit d (name, kind)) := by
  obtain ⟨rfl, c, rfl⟩ := h.channel_of_root hkind
  have hparse : ChannelId.parse (componentText c.asKey) = some c := ChannelId.parse_eq_some.mpr rfl
  obtain ⟨items, hlists, hscan⟩ := scans_channelFiles order h c
  refine ⟨items, ⟨hlists.nodup, fun x => ?_⟩, fun found hfound => ?_⟩
  · rw [hlists.mem, channelDir_prefix_iff_sha256]
  · rw [ArtifactFiles.scanChannel, hparse]
    exact hscan found hfound

/-- The scan inverts `path`: it returns the first of a list that names every final file once. -/
theorem orphanScan_eq (h : Canonical d) (limit : Nat) :
    ∃ finals, Lists d [] finals ∧
      ArtifactFiles.orphanScan order limit d = .ok (finals.take limit) := by
  obtain ⟨finals, hlists, hscan⟩ := scans_directory order h
    (Canonical.isDir_root (d := d)) (by simp) fun name kind hkind => scans_channel order h hkind
  refine ⟨finals, hlists, ?_⟩
  obtain ⟨channels, hchannels, -⟩ := readDir_ok order (Canonical.isDir_root (d := d))
  rw [ArtifactFiles.orphanScan, hchannels]
  rcases Nat.eq_zero_or_pos limit with rfl | hpos
  · cases channels <;> rfl
  · have hroot := hscan [] hpos
    rw [ArtifactFiles.scanDirectory, hchannels] at hroot
    exact hroot

/-- Below a limit that no more final files exceed, the scan is complete. -/
theorem Lists.take_eq_self {finals : ArtifactFiles.Found} (h : Lists d [] finals)
    (hcount : (finalFiles d).ncard ≤ limit) : finals.take limit = finals := by
  refine List.take_of_length_le (Nat.le_trans ?_ hcount)
  have hset : finalFiles d = finals.toFinset := by
    ext x
    rw [Finset.mem_coe, List.mem_toFinset, h.mem]
    simp
  rw [hset, Set.ncard_coe_finset, List.toFinset_card_of_nodup h.nodup]

end Scan

/-! ## Startup -/

section Reconcile

variable {d : FsDisk} {store : RocksMetadata}

theorem remove_eq {c : ChannelId} {a : ArtifactId} (hdir : d.kindAt (path c a) ≠ some .dir) :
    ArtifactFiles.remove c a d = .ok (d.unlink (path c a)) := by
  rw [ArtifactFiles.remove, removeFile]
  cases hkind : d.kindAt (path c a) with
  | none =>
    have hsame : d = d.unlink (path c a) := by
      refine ExtTreeMap.ext_getElem? fun q => ?_
      rw [Disk.unlink_apply]
      split
      · rename_i heq
        rw [← heq]
        exact Option.map_eq_none_iff.mp hkind
      · rfl
    exact congrArg Except.ok hsame
  | some kind =>
    cases kind with
    | dir => exact absurd hkind hdir
    | file content synced => rfl

/-- The loop removes the files it was given that have no record. -/
theorem reconcileLoop_eq {found : ArtifactFiles.Found}
    (hfound : ∀ x ∈ found, d.kindAt (path x.1 x.2) ≠ some .dir) :
    ∃ d', CacheService.reconcileLoop store found d = .ok d' ∧
      Without (fun q => ∃ x ∈ found, store.artifact x.1 x.2 = none ∧ q = path x.1 x.2) d d' := by
  induction found generalizing d with
  | nil => exact ⟨d, rfl, (Without.refl d).congr fun q => by simp⟩
  | cons x found ih =>
    obtain ⟨c, a⟩ := x
    cases hrecord : store.artifact c a with
    | some record =>
      obtain ⟨d', hd', hwithout⟩ := ih fun x hx => hfound x (List.mem_cons_of_mem _ hx)
      refine ⟨d', ?_, hwithout.congr fun q => ?_⟩
      · rw [CacheService.reconcileLoop, hrecord]
        exact hd'
      · simp [hrecord]
    | none =>
      have hremove := remove_eq (hfound (c, a) List.mem_cons_self)
      have hremoved := Without.unlink d (path c a)
      have hstill : ∀ x ∈ found, (d.unlink (path c a)).kindAt (path x.1 x.2) ≠ some .dir :=
        fun x hx hdir => hfound x (List.mem_cons_of_mem _ hx)
          ((hremoved.kindAt_of_some hdir).symm.trans hdir)
      obtain ⟨d', hd', hwithout⟩ := ih hstill
      refine ⟨d', ?_, (hremoved.trans hwithout).congr fun q => ?_⟩
      · rw [CacheService.reconcileLoop, hrecord]
        dsimp only [Option.isSome_none, Option.isNone_none]
        rw [if_neg Bool.false_ne_true, if_pos rfl, hremove]
        exact hd'
      · simp [hrecord]

theorem removeTemporaryFiles_without (d : FsDisk) :
    Without (fun q => d[q]?.any (fun n => isTmpPath q && n.kind != .dir) = true) d
      (removeTemporaryFiles d) := by
  constructor
  · intro q hq
    rw [removeTemporaryFiles, eraseWhere_apply, if_pos hq]
  · intro q hq
    rw [removeTemporaryFiles, eraseWhere_apply, if_neg hq]

theorem Canonical.removeTemporaryFiles (h : Canonical d) :
    Canonical (Flywheel.removeTemporaryFiles d) := by
  refine h.without (removeTemporaryFiles_without d) fun q hq hdir => ?_
  obtain ⟨n, hn, hq⟩ := (Option.any_eq_true _ _).mp hq
  rw [Disk.kindAt, hn, Option.map_some] at hdir
  simp [Option.some.inj hdir] at hq

theorem finalFiles_congr {d d' : FsDisk} (h : ∀ c a, d'[path c a]? = d[path c a]?) :
    finalFiles d' = finalFiles d := by
  ext ⟨c, a⟩
  rw [mem_finalFiles, mem_finalFiles, Disk.kindAt_congr (h c a)]

/-- After startup no staged file is left, a final file with a record is untouched, and if the
limit covers the final files, exactly those with a record are left. -/
theorem reconcile_recovers (order : Order Bytes UInt8) (orphanScanLimit : Nat)
    (store : RocksMetadata) (h : Canonical d) :
    ∃ d', CacheService.reconcile order orphanScanLimit store d = .ok (store, d') ∧
      (∀ c name content synced, d'.kindAt (tmpPath c name) ≠ some (.file content synced)) ∧
      (∀ c a, (store.artifact c a).isSome → d'[path c a]? = d[path c a]?) ∧
      ((finalFiles d).ncard ≤ orphanScanLimit →
        (∀ c a, (c, a) ∈ finalFiles d' ↔ (c, a) ∈ finalFiles d ∧ (store.artifact c a).isSome) ∧
        ∃ found, ArtifactFiles.orphanScan order orphanScanLimit d = .ok found ∧ found.Nodup ∧
          ∀ x, x ∈ found ↔ x ∈ finalFiles d) := by
  have hfiles : ∀ c a, (removeTemporaryFiles d)[path c a]? = d[path c a]? := fun c a =>
    removeTemporaryFiles_of_not_tmp d (isTmpPath_path c a)
  have hfinal : finalFiles (removeTemporaryFiles d) = finalFiles d := finalFiles_congr hfiles
  obtain ⟨finals, hlists, hscan⟩ := orphanScan_eq order h.removeTemporaryFiles orphanScanLimit
  have hfound : ∀ x ∈ finals.take orphanScanLimit,
      (removeTemporaryFiles d).kindAt (path x.1 x.2) ≠ some .dir := by
    intro x hx hdir
    obtain ⟨content, synced, hfile⟩ :=
      mem_finalFiles.mp ((hlists.mem x).mp (List.mem_of_mem_take hx)).1
    exact absurd (hfile.symm.trans hdir) (by simp)
  obtain ⟨d', hd', hwithout⟩ := reconcileLoop_eq hfound
  have hkept : ∀ c a, (store.artifact c a).isSome → d'[path c a]? = d[path c a]? := by
    intro c a hrecord
    rw [hwithout.same, hfiles]
    rintro ⟨x, -, hnone, hpath⟩
    obtain ⟨rfl, rfl⟩ := path_inj.mp hpath
    rw [hnone] at hrecord
    cases hrecord
  refine ⟨d', ?_, ?_, hkept, ?_⟩
  · rw [CacheService.reconcile, removeTemporaryFiles_eq order h]
    dsimp only
    rw [hscan]
    dsimp only
    rw [hd']
    rfl
  · intro c name content synced hfile
    rw [hwithout.kindAt_of_some hfile] at hfile
    exact removeTemporaryFiles_of_tmp d (isTmpPath_tmpPath c name) content synced hfile
  · intro hcount
    have hall : finals.take orphanScanLimit = finals := hlists.take_eq_self (hfinal ▸ hcount)
    rw [hall] at hwithout
    constructor
    · intro c a
      cases hrecord : store.artifact c a with
      | some record =>
        have hsame := hkept c a (Option.isSome_of_eq_some hrecord)
        rw [mem_finalFiles, mem_finalFiles, Disk.kindAt_congr hsame]
        simp
      | none =>
        -- a file without a record is in the list, so the loop removed it
        refine ⟨fun hmem => absurd hmem ?_, fun hmem => absurd hmem.2 (by simp)⟩
        rw [mem_finalFiles]
        rintro ⟨content, synced, hfile⟩
        have hold := (hwithout.kindAt_of_some hfile).symm.trans hfile
        have hlisted : (c, a) ∈ finals :=
          (hlists.mem (c, a)).mpr ⟨mem_finalFiles.mpr ⟨content, synced, hold⟩, List.nil_prefix⟩
        rw [Disk.kindAt, hwithout.none _ ⟨(c, a), hlisted, hrecord, rfl⟩] at hfile
        cases hfile
    · obtain ⟨finals, hlists, hscan⟩ := orphanScan_eq order h orphanScanLimit
      rw [hlists.take_eq_self hcount] at hscan
      exact ⟨finals, hscan, hlists.nodup, fun x => by simpa using hlists.mem x⟩

theorem kindAt_insert (d : FsDisk) (p q : Path) (n : Node UInt8) :
    Disk.kindAt (d.insert p n) q = if p = q then some n.kind else d.kindAt q := by
  rw [Disk.kindAt, Disk.insert_apply, Disk.kindAt]
  split <;> rfl

theorem kindAt_insert_self (d : FsDisk) (p : Path) (n : Node UInt8) :
    Disk.kindAt (d.insert p n) p = some n.kind := by
  rw [kindAt_insert, if_pos rfl]

/-- The layout grows by entries in directories that are there. -/
theorem Canonical.insert (h : Canonical d) {p : Path} {n : Node UInt8} (hne : p ≠ [])
    (hdir : n.kind = .dir → ∃ c, p = channelDir c ∨ p = tmpDir c ∨ ∃ a, p <+: shardDir c a)
    (hfile : n.kind ≠ .dir → d[p]? = none ∧ ∃ c, (∃ name, p = tmpPath c name) ∨ ∃ a, p = path c a)
    (hparent : p.dropLast = [] ∨ d.kindAt p.dropLast = some .dir) : Canonical (d.insert p n) := by
  have hkeeps : ∀ q, d.kindAt q = some .dir → Disk.kindAt (d.insert p n) q = some .dir := by
    intro q hq
    rw [kindAt_insert]
    split
    · rename_i heq
      by_cases hn : n.kind = .dir
      · rw [hn]
      · rw [Disk.kindAt, ← heq, (hfile hn).1] at hq
        cases hq
    · exact hq
  constructor
  case root => rw [kindAt_insert, if_neg hne, h.root]
  case dir =>
    intro q hq
    rw [kindAt_insert] at hq
    split at hq
    · rename_i heq
      exact heq ▸ hdir (Option.some.inj hq)
    · exact h.dir q hq
  case file =>
    intro q content synced hq
    rw [kindAt_insert] at hq
    split at hq
    · rename_i heq
      exact heq ▸ (hfile (by rw [Option.some.inj hq]; rintro ⟨⟩)).2
    · exact h.file q content synced hq
  case parent =>
    intro q hq
    rw [kindAt_insert] at hq
    split at hq
    · rename_i heq
      exact heq ▸ hparent.imp_right (hkeeps _)
    · exact (h.parent q hq).imp_right (hkeeps _)

/-- `path` with the directories above it. -/
def place (d : FsDisk) (c : ChannelId) (a : ArtifactId) (content : Bytes) : FsDisk :=
  let d := d.insert ((shardDir c a).take 1) ⟨.dir, true⟩
  let d := d.insert ((shardDir c a).take 2) ⟨.dir, true⟩
  let d := d.insert ((shardDir c a).take 3) ⟨.dir, true⟩
  let d := d.insert ((shardDir c a).take 4) ⟨.dir, true⟩
  d.insert (path c a) ⟨.file content true, true⟩

/-- What lies above the published files is none of them. -/
theorem insert_above (d : FsDisk) {p : Path} (hp : p.length < 5) (n : Node UInt8) (c : ChannelId)
    (a : ArtifactId) : (d.insert p n)[path c a]? = d[path c a]? := by
  rw [Disk.insert_apply, if_neg]
  rintro rfl
  rw [length_path] at hp
  omega

theorem length_take_shardDir (length : Nat) (c : ChannelId) (a : ArtifactId) :
    ((shardDir c a).take length).length < 5 :=
  Nat.lt_succ_of_le (List.length_take_le' length (shardDir c a))

theorem Canonical.place (h : Canonical d) (c : ChannelId) (a : ArtifactId) (content : Bytes)
    (hfree : d[path c a]? = none) : Canonical (Flywheel.place d c a content) := by
  have hdir : ∀ length, ∃ c', (shardDir c a).take length = channelDir c' ∨
      (shardDir c a).take length = tmpDir c' ∨ ∃ a', (shardDir c a).take length <+: shardDir c' a' :=
    fun length => ⟨c, .inr (.inr ⟨a, List.take_prefix _ _⟩)⟩
  have hlink : ∀ {d : FsDisk} (length : Nat), 0 < length → Canonical d →
      (((shardDir c a).take length).dropLast = [] ∨
        d.kindAt ((shardDir c a).take length).dropLast = some .dir) →
      Canonical (d.insert ((shardDir c a).take length) ⟨.dir, true⟩) := by
    intro d length hlength hd hparent
    refine hd.insert (fun hnil => ?_) (fun _ => hdir length) (fun hn => absurd rfl hn) hparent
    obtain ⟨n, rfl⟩ := Nat.exists_eq_succ_of_ne_zero (Nat.ne_of_gt hlength)
    cases hnil
  have h₁ := hlink 1 (by decide) h (.inl rfl)
  have h₂ := hlink 2 (by decide) h₁ (.inr (kindAt_insert_self ..))
  have h₃ := hlink 3 (by decide) h₂ (.inr (kindAt_insert_self ..))
  have h₄ := hlink 4 (by decide) h₃ (.inr (kindAt_insert_self ..))
  refine h₄.insert (path_ne_nil c a) nofun (fun _ => ⟨?_, c, .inr ⟨a, rfl⟩⟩)
    (.inr (kindAt_insert_self ..))
  have habove := fun length => length_take_shardDir length c a
  rw [insert_above _ (habove 4), insert_above _ (habove 3), insert_above _ (habove 2),
    insert_above _ (habove 1), hfree]

theorem place_apply (d : FsDisk) (c c' : ChannelId) (a a' : ArtifactId) (content : Bytes) :
    (place d c a content)[path c' a']? =
      if c = c' ∧ a = a' then some ⟨.file content true, true⟩ else d[path c' a']? := by
  have habove := fun length => length_take_shardDir length c a
  dsimp only [place]
  rw [Disk.insert_apply, insert_above _ (habove 4), insert_above _ (habove 3),
    insert_above _ (habove 2), insert_above _ (habove 1)]
  simp only [path_inj]

theorem finalFiles_place (d : FsDisk) (c : ChannelId) (a : ArtifactId) (content : Bytes) :
    finalFiles (place d c a content) = insert (c, a) (finalFiles d) := by
  ext ⟨c', a'⟩
  rw [Set.mem_insert_iff, mem_finalFiles, mem_finalFiles, Disk.kindAt, place_apply, Disk.kindAt]
  by_cases hsame : c = c' ∧ a = a'
  · obtain ⟨rfl, rfl⟩ := hsame
    simp
  · rw [if_neg hsame]
    have hne : ¬ (c', a') = (c, a) := fun h => hsame (by cases h; exact ⟨rfl, rfl⟩)
    rw [or_iff_right hne]

def repeatedArtifact (b : UInt8) : ArtifactId := ⟨⟨List.replicate 32 b, List.length_replicate⟩⟩

/-- A channel with a staged file. -/
def staged : FsDisk :=
  ((∅ : FsDisk).insert (channelDir .default) ⟨.dir, true⟩ |>.insert (tmpDir .default) ⟨.dir, true⟩)
    |>.insert (tmpPath .default [49]) ⟨.file [1, 2] false, false⟩

theorem canonical_staged : Canonical staged := by
  have hempty : Canonical (∅ : FsDisk) := by
    constructor <;> simp [Disk.kindAt]
  refine ((hempty.insert (by simp [channelDir]) ?_ ?_ ?_).insert (by simp [tmpDir]) ?_ ?_ ?_).insert
    (by simp [tmpPath]) ?_ ?_ ?_
  · exact fun _ => ⟨.default, .inl rfl⟩
  · exact fun hn => absurd rfl hn
  · exact .inl rfl
  · exact fun _ => ⟨.default, .inr (.inl rfl)⟩
  · exact fun hn => absurd rfl hn
  · exact .inr (by decide +kernel)
  · intro hn
    cases hn
  · exact fun _ => ⟨by decide +kernel, .default, .inl ⟨[49], rfl⟩⟩
  · exact .inr (by decide +kernel)

/-- The channel has two published files as well. -/
def abandoned : FsDisk :=
  place (place staged .default (repeatedArtifact 1) [3]) .default (repeatedArtifact 2) [4]

/-- The first of them has a record. -/
def recordedStore : RocksMetadata where
  artifacts := Family.put ∅ (artifactKey .default (repeatedArtifact 1)) ⟨1, none, 0, 0, 1, .identity⟩
  references := ∅
  eviction := ∅
  channels := ∅

theorem staged_apply (c : ChannelId) (a : ArtifactId) : staged[path c a]? = none := by
  rw [staged, insert_above _ (by decide), insert_above _ (by decide), insert_above _ (by decide)]
  exact ExtTreeMap.getElem?_empty

theorem canonical_abandoned : Canonical abandoned := by
  refine (canonical_staged.place _ _ _ (staged_apply ..)).place _ _ _ ?_
  rw [place_apply, if_neg (by decide), staged_apply]

theorem finalFiles_abandoned : finalFiles abandoned =
    {(.default, repeatedArtifact 2), (.default, repeatedArtifact 1)} := by
  have hnone : finalFiles staged = ∅ := by
    ext ⟨c, a⟩
    rw [mem_finalFiles, Disk.kindAt, staged_apply]
    simp
  rw [abandoned, finalFiles_place, finalFiles_place, hnone, insert_empty_eq]

/-- Startup removes the staged file and the file without a record. -/
theorem abandoned_recovered :
    ∃ d', CacheService.reconcile default 10 recordedStore abandoned = .ok (recordedStore, d') ∧
      d'.content (tmpPath .default [49]) = none ∧
      (.default, repeatedArtifact 1) ∈ finalFiles d' ∧
      (.default, repeatedArtifact 2) ∉ finalFiles d' := by
  obtain ⟨d', hd', htmp, -, hfinal⟩ := reconcile_recovers default 10 recordedStore canonical_abandoned
  obtain ⟨hfinal, -⟩ := hfinal (by
    rw [finalFiles_abandoned]
    exact (Set.ncard_insert_le ..).trans (by rw [Set.ncard_singleton]; decide))
  refine ⟨d', hd', ?_, ?_, ?_⟩
  · have hno := htmp .default [49]
    rw [Disk.content]
    cases hkind : d'.kindAt (tmpPath .default [49]) with
    | none => rfl
    | some kind =>
      cases kind with
      | dir => rfl
      | file content synced => exact absurd hkind (hno content synced)
  · rw [hfinal, finalFiles_abandoned]
    exact ⟨.inr rfl, by decide +kernel⟩
  · rw [hfinal]
    exact fun h => absurd h.2 (by decide +kernel)

end Reconcile

end Flywheel
