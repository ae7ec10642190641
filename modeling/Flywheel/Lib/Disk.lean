import Std.Data.ExtTreeMap
import Mathlib.Data.List.Infix

/-!
# A filesystem that can lose power

A disk maps paths to nodes. Beside its content, a node records what has reached the
platter: whether a file's content was fsynced, and whether its directory entry is
`linked`, that is whether the parent directory was fsynced since the entry was made.

`LosePower d d'` says what a loss of power may leave behind: an entry on a path all of
whose entries are linked survives, any other may be dropped; a surviving file that was
not fsynced keeps some prefix of its content. A file is `Durable` when no loss of
power can touch it, and `LosePower.durable` is the rule that says so.

Every operation has one lemma for the node it leaves at an arbitrary path, so that proofs
about a particular layout never unfold the tree. `AgreeBelow p` compares two disks below one
directory: the same operation on both keeps it, and an operation elsewhere keeps it too.
-/

set_option autoImplicit false

namespace Flywheel.Lib

open Std

universe u v

/-- A directory, or a file with its content and whether the content was fsynced. -/
inductive Kind (β : Type v) where
  | dir
  | file (content : List β) (synced : Bool)
  deriving DecidableEq

/-- The content of a file. -/
def Kind.bytes {β : Type v} : Kind β → Option (List β)
  | .dir => none
  | .file content _ => some content

/-- A node and whether its directory entry has reached the platter. -/
structure Node (β : Type v) where
  kind : Kind β
  linked : Bool
  deriving DecidableEq

/-- What a loss of power may make of a surviving node. -/
def Node.Survives {β : Type v} (n n' : Node β) : Prop :=
  n'.linked = true ∧
    match n.kind, n'.kind with
    | .dir, .dir => True
    | .file c s, .file c' s' => c' <+: c ∧ s' = true ∧ (s = true → c' = c)
    | _, _ => False

/-- What is left of a node when the first `len` elements of unsynced content reached the
platter. -/
def Node.afterLoss {β : Type v} (n : Node β) (len : Nat) : Node β where
  kind := match n.kind with
    | .dir => .dir
    | .file c s => .file (if s then c else c.take len) true
  linked := true

theorem Node.survives_afterLoss {β : Type v} (n : Node β) (len : Nat) :
    n.Survives (n.afterLoss len) := by
  obtain ⟨kind, linked⟩ := n
  cases kind with
  | dir => exact ⟨rfl, trivial⟩
  | file c s =>
    cases s with
    | true => exact ⟨rfl, List.prefix_refl c, rfl, fun _ => rfl⟩
    | false => exact ⟨rfl, List.take_prefix len c, rfl, fun h => absurd h Bool.false_ne_true⟩

/-- A tree of nodes; the root `[]` is always there and is not a node. -/
abbrev Disk (γ : Type u) (β : Type v) [Ord γ] : Type (max u v) :=
  ExtTreeMap (List γ) (Node β) compare

namespace Disk

variable {γ : Type u} {β : Type v} [Ord γ] [TransOrd γ] [LawfulEqOrd γ] [DecidableEq γ]

/-! ## Operations -/

/-- What is at `p`: a directory, or a file and whether it was fsynced. -/
def kindAt (d : Disk γ β) (p : List γ) : Option (Kind β) := d[p]?.map (·.kind)

/-- The content of the file at `p`, if there is one. -/
def content (d : Disk γ β) (p : List γ) : Option (List β) := (d.kindAt p).bind Kind.bytes

def isDir (d : Disk γ β) (p : List γ) : Bool :=
  p.isEmpty || match d[p]? with
    | some ⟨.dir, _⟩ => true
    | _ => false

/-- Make the directory `q` unless something is there already. -/
def mkdir (d : Disk γ β) (q : List γ) : Disk γ β :=
  if q = [] ∨ d[q]?.isSome then d else d.insert q ⟨.dir, false⟩

/-- `create_dir_all`: every missing directory on the way to `p`. -/
def mkdirAll (d : Disk γ β) (p : List γ) : Disk γ β := p.inits.foldl mkdir d

/-- Open a new file; fails when its directory is missing or the name is taken. -/
def createNew (d : Disk γ β) (p : List γ) : Option (Disk γ β) :=
  if d.isDir p.dropLast ∧ d[p]? = none then some (d.insert p ⟨.file [] false, false⟩) else none

/-- Write through a handle to the file named `p`; a file unlinked meanwhile has no name
left, so nothing on the disk changes. -/
def write (d : Disk γ β) (p : List γ) (c : List β) : Disk γ β :=
  match d[p]? with
  | some ⟨.file _ _, l⟩ => d.insert p ⟨.file c false, l⟩
  | _ => d

def syncFile (d : Disk γ β) (p : List γ) : Disk γ β :=
  match d[p]? with
  | some ⟨.file c _, l⟩ => d.insert p ⟨.file c true, l⟩
  | _ => d

/-- Move a node to a new name; the new entry has not reached the platter. -/
def rename (d : Disk γ β) (src dst : List γ) : Option (Disk γ β) :=
  match d[src]? with
  | some n =>
    if d.isDir dst.dropLast then some ((d.erase src).insert dst ⟨n.kind, false⟩) else none
  | none => none

/-- fsync the directory `p`: the entries in it reach the platter. -/
def syncDir (d : Disk γ β) (p : List γ) : Disk γ β :=
  d.map fun q n => if q ≠ [] ∧ q.dropLast = p then ⟨n.kind, true⟩ else n

def unlink (d : Disk γ β) (p : List γ) : Disk γ β := d.erase p

/-! ## The node each operation leaves at a path -/

theorem insert_apply (d : Disk γ β) (p q : List γ) (n : Node β) :
    (d.insert p n)[q]? = if p = q then some n else d[q]? := by
  rw [ExtTreeMap.getElem?_insert]
  simp

theorem unlink_apply (d : Disk γ β) (p q : List γ) :
    (d.unlink p)[q]? = if p = q then none else d[q]? := by
  rw [unlink, ExtTreeMap.getElem?_erase]
  simp

omit [LawfulEqOrd γ] [DecidableEq γ] in
/-- Removing a name that is there leaves one name less. -/
theorem size_unlink_lt {d : Disk γ β} {p : List γ} {n : Node β} (h : d[p]? = some n) :
    (d.unlink p).size < d.size := by
  have hmem : p ∈ d := ExtTreeMap.mem_iff_isSome_getElem?.mpr (by rw [h]; rfl)
  have hpos : d.size ≠ 0 :=
    mt ExtTreeMap.eq_empty_iff_size_eq_zero.mpr (ExtTreeMap.ne_empty_of_mem hmem)
  rw [unlink, ExtTreeMap.size_erase, if_pos (ExtTreeMap.mem_iff_contains.mp hmem)]
  omega

theorem mkdir_apply (d : Disk γ β) (q r : List γ) :
    (d.mkdir q)[r]? = d[r]?.or (if q = r ∧ q ≠ [] then some ⟨.dir, false⟩ else none) := by
  unfold mkdir
  by_cases hq : q = [] ∨ d[q]?.isSome = true
  · rw [if_pos hq]
    rcases hq with rfl | hq
    · simp
    · by_cases hr : q = r
      · subst hr
        rw [Option.or_of_isSome hq]
      · simp [hr]
  · rw [if_neg hq, insert_apply]
    rw [not_or, Option.not_isSome_iff_eq_none] at hq
    by_cases hr : q = r
    · subst hr
      simp [hq.1, hq.2]
    · simp [hr]

theorem foldl_mkdir_apply (d : Disk γ β) (qs : List (List γ)) (r : List γ) :
    (qs.foldl mkdir d)[r]? =
      d[r]?.or (if r ∈ qs ∧ r ≠ [] then some ⟨.dir, false⟩ else none) := by
  induction qs generalizing d with
  | nil => simp
  | cons q qs ih =>
    rw [List.foldl_cons, ih, mkdir_apply]
    by_cases hq : q = r
    · subst hq
      cases d[q]? <;> by_cases hne : q = [] <;> simp [hne]
    · have hrq : ¬ r = q := fun h => hq h.symm
      simp [hq, hrq]

theorem mkdirAll_apply (d : Disk γ β) (p r : List γ) :
    (d.mkdirAll p)[r]? =
      d[r]?.or (if r <+: p ∧ r ≠ [] then some ⟨.dir, false⟩ else none) := by
  rw [mkdirAll, foldl_mkdir_apply]
  simp [List.mem_inits]

theorem syncDir_apply (d : Disk γ β) (p r : List γ) :
    (d.syncDir p)[r]? = d[r]?.map fun n =>
      if r ≠ [] ∧ r.dropLast = p then ⟨n.kind, true⟩ else n := by
  rw [syncDir, ExtTreeMap.getElem?_map]

theorem write_apply_of_ne (d : Disk γ β) {p q : List γ} (h : q ≠ p) (c : List β) :
    (d.write p c)[q]? = d[q]? := by
  unfold write
  split
  · rw [insert_apply, if_neg (Ne.symm h)]
  · rfl

omit [DecidableEq γ] in
theorem write_apply_self {d : Disk γ β} {p : List γ} {c₀ : List β} {s l : Bool}
    (h : d[p]? = some ⟨.file c₀ s, l⟩) (c : List β) :
    (d.write p c)[p]? = some ⟨.file c false, l⟩ := by
  simp [write, h]

theorem syncFile_apply_of_ne (d : Disk γ β) {p q : List γ} (h : q ≠ p) :
    (d.syncFile p)[q]? = d[q]? := by
  unfold syncFile
  split
  · rw [insert_apply, if_neg (Ne.symm h)]
  · rfl

omit [DecidableEq γ] in
theorem syncFile_apply_self {d : Disk γ β} {p : List γ} {c : List β} {s l : Bool}
    (h : d[p]? = some ⟨.file c s, l⟩) :
    (d.syncFile p)[p]? = some ⟨.file c true, l⟩ := by
  simp [syncFile, h]

theorem createNew_eq_some {d d' : Disk γ β} {p : List γ} (h : d.createNew p = some d') :
    d[p]? = none ∧ ∀ r, d'[r]? = if p = r then some ⟨.file [] false, false⟩ else d[r]? := by
  unfold createNew at h
  split at h
  · rename_i hc
    cases h
    exact ⟨hc.2, fun r => insert_apply ..⟩
  · cases h

theorem rename_eq_some {d d' : Disk γ β} {src dst : List γ}
    (h : d.rename src dst = some d') :
    ∃ n, d[src]? = some n ∧ ∀ r, d'[r]? =
      if dst = r then some ⟨n.kind, false⟩ else if src = r then none else d[r]? := by
  unfold rename at h
  split at h
  · rename_i n hn
    split at h
    · cases h
      refine ⟨n, hn, fun r => ?_⟩
      rw [insert_apply, ← unlink, unlink_apply]
    · cases h
  · cases h

/-! ## What is at a path after each operation

The same lookups without the `linked` flags, which fsyncing a directory changes for
entries that are otherwise left alone. -/

section KindAt

variable {d d' : Disk γ β} {p q : List γ}

omit [LawfulEqOrd γ] [DecidableEq γ] in
theorem kindAt_congr (h : d'[q]? = d[q]?) : d'.kindAt q = d.kindAt q := by
  rw [kindAt, kindAt, h]

theorem kindAt_mkdirAll (h : ¬ q <+: p) : (d.mkdirAll p).kindAt q = d.kindAt q :=
  kindAt_congr (by simp [mkdirAll_apply, h])

/-- Making directories leaves what is there, or makes a directory on the way to `p`. -/
theorem kindAt_mkdirAll_cases (d : Disk γ β) (p q : List γ) :
    (d.mkdirAll p).kindAt q = d.kindAt q ∨
      (q <+: p ∧ (d.mkdirAll p).kindAt q = some .dir) := by
  rw [kindAt, kindAt, mkdirAll_apply]
  cases d[q]? with
  | some n => exact .inl rfl
  | none =>
    rw [Option.none_or]
    split
    · rename_i hq
      exact .inr ⟨hq.1, rfl⟩
    · exact .inl rfl

theorem kindAt_createNew (h : d.createNew p = some d') (hq : q ≠ p) :
    d'.kindAt q = d.kindAt q :=
  kindAt_congr (by rw [(createNew_eq_some h).2, if_neg (Ne.symm hq)])

theorem kindAt_createNew_self (h : d.createNew p = some d') :
    d'.kindAt p = some (.file [] false) := by
  rw [kindAt, (createNew_eq_some h).2, if_pos rfl]
  rfl

theorem kindAt_write (hq : q ≠ p) (c : List β) : (d.write p c).kindAt q = d.kindAt q :=
  kindAt_congr (write_apply_of_ne d hq c)

omit [DecidableEq γ] in
theorem kindAt_write_self {c₀ : List β} {b : Bool} (h : d.kindAt p = some (.file c₀ b))
    (c : List β) : (d.write p c).kindAt p = some (.file c false) := by
  obtain ⟨⟨k, l⟩, hn, rfl⟩ := Option.map_eq_some_iff.mp h
  rw [kindAt, write_apply_self hn]
  rfl

theorem kindAt_syncFile (hq : q ≠ p) : (d.syncFile p).kindAt q = d.kindAt q :=
  kindAt_congr (syncFile_apply_of_ne d hq)

omit [DecidableEq γ] in
theorem kindAt_syncFile_self {c : List β} {b : Bool} (h : d.kindAt p = some (.file c b)) :
    (d.syncFile p).kindAt p = some (.file c true) := by
  obtain ⟨⟨k, l⟩, hn, rfl⟩ := Option.map_eq_some_iff.mp h
  rw [kindAt, syncFile_apply_self hn]
  rfl

theorem kindAt_syncDir (d : Disk γ β) (p q : List γ) : (d.syncDir p).kindAt q = d.kindAt q := by
  rw [kindAt, kindAt, syncDir_apply]
  cases d[q]? with
  | none => rfl
  | some n =>
    dsimp only [Option.map_some]
    split <;> rfl

theorem kindAt_unlink (hq : q ≠ p) : (d.unlink p).kindAt q = d.kindAt q :=
  kindAt_congr (by rw [unlink_apply, if_neg (Ne.symm hq)])

theorem kindAt_unlink_self (d : Disk γ β) (p : List γ) : (d.unlink p).kindAt p = none := by
  rw [kindAt, unlink_apply, if_pos rfl]
  rfl

theorem kindAt_rename {src : List γ} (h : d.rename src p = some d') (hsrc : q ≠ src)
    (hp : q ≠ p) : d'.kindAt q = d.kindAt q := by
  obtain ⟨n, -, hd'⟩ := rename_eq_some h
  exact kindAt_congr (by rw [hd', if_neg (Ne.symm hp), if_neg (Ne.symm hsrc)])

theorem kindAt_rename_self {src : List γ} (h : d.rename src p = some d') :
    d'.kindAt p = d.kindAt src := by
  obtain ⟨n, hn, hd'⟩ := rename_eq_some h
  rw [kindAt, kindAt, hd', if_pos rfl, hn]
  rfl

theorem kindAt_rename_source {src : List γ} (h : d.rename src p = some d') (hne : src ≠ p) :
    d'.kindAt src = none := by
  obtain ⟨n, -, hd'⟩ := rename_eq_some h
  rw [kindAt, hd', if_neg (Ne.symm hne), if_pos rfl]
  rfl

end KindAt

/-! ## Durable files -/

/-- Every entry on the way to `p`, its own included, has reached the platter. -/
def Linked (d : Disk γ β) (p : List γ) : Prop :=
  ∀ q, q <+: p → q ≠ [] → ∃ n, d[q]? = some n ∧ n.linked = true

/-- `Linked`, evaluated. -/
def isLinked (d : Disk γ β) (p : List γ) : Bool :=
  p.inits.all fun q => q.isEmpty || d[q]?.any (·.linked)

omit [LawfulEqOrd γ] [DecidableEq γ] in
theorem linked_of_isLinked {d : Disk γ β} {p : List γ} (h : d.isLinked p = true) :
    d.Linked p := by
  intro q hq hne
  have hq' := List.all_eq_true.mp h q (by simpa [List.mem_inits] using hq)
  rcases (Bool.or_eq_true _ _).mp hq' with hempty | hlinked
  · exact absurd (List.isEmpty_iff.mp hempty) hne
  · exact (Option.any_eq_true _ _).mp hlinked

/-- The file at `p` has content `c` and no loss of power can touch it. -/
def Durable (d : Disk γ β) (p : List γ) (c : List β) : Prop :=
  d.Linked p ∧ ∃ l, d[p]? = some ⟨.file c true, l⟩

/-- What a loss of power may leave of a disk. -/
structure LosePower (d d' : Disk γ β) : Prop where
  /-- What is left was there, and files keep a prefix, all of it when fsynced. -/
  survives : ∀ (p : List γ) (n' : Node β), d'[p]? = some n' → ∃ n : Node β, d[p]? = some n ∧ n.Survives n'
  /-- Nothing on a path that reached the platter is dropped. -/
  keeps : ∀ p : List γ, p ≠ [] → d.Linked p → d'[p]?.isSome
  /-- What is left is still reachable from the root. -/
  closed : ∀ p : List γ, d'[p]?.isSome → ∀ q, q <+: p → q ≠ [] → d'[q]?.isSome

omit [LawfulEqOrd γ] [DecidableEq γ] in
theorem Linked.of_prefix {d : Disk γ β} {p q : List γ} (h : d.Linked p) (hq : q <+: p) :
    d.Linked q :=
  fun r hr => h r (hr.trans hq)

omit [LawfulEqOrd γ] [DecidableEq γ] in
/-- Entries that stay linked keep a path linked. -/
theorem Linked.imp {d d' : Disk γ β} {p : List γ} (h : d.Linked p)
    (hkeep : ∀ q n, q <+: p → d[q]? = some n → n.linked = true →
      ∃ n', d'[q]? = some n' ∧ n'.linked = true) : d'.Linked p := by
  intro q hq hne
  obtain ⟨n, hn, hl⟩ := h q hq hne
  exact hkeep q n hq hn hl

omit [LawfulEqOrd γ] [DecidableEq γ] in
/-- A path whose nodes are all left alone keeps its durable file. -/
theorem Durable.congr {d d' : Disk γ β} {p : List γ} {c : List β} (h : d.Durable p c)
    (hsame : ∀ q, q <+: p → d[q]?.isSome → d'[q]? = d[q]?) : d'.Durable p c := by
  obtain ⟨hl, l, hfile⟩ := h
  refine ⟨hl.imp fun q n hq hn hlink => ⟨n, ?_, hlink⟩, l, ?_⟩
  · rw [hsame q hq (by simp [hn]), hn]
  · rw [hsame p (List.prefix_refl p) (by simp [hfile]), hfile]

theorem Durable.mkdirAll {d : Disk γ β} {p : List γ} {c : List β} (h : d.Durable p c)
    (q : List γ) : (d.mkdirAll q).Durable p c :=
  h.congr fun r _ hr => by rw [mkdirAll_apply, Option.or_of_isSome hr]

theorem Linked.mkdirAll {d : Disk γ β} {p : List γ} (h : d.Linked p) (q : List γ) :
    (d.mkdirAll q).Linked p :=
  h.imp fun r n _ hn hl => ⟨n, by rw [mkdirAll_apply, hn]; rfl, hl⟩

theorem Linked.syncDir {d : Disk γ β} {p : List γ} (h : d.Linked p) (q : List γ) :
    (d.syncDir q).Linked p := by
  refine h.imp fun r n _ hn hl => ?_
  rw [syncDir_apply, hn]
  refine ⟨_, rfl, ?_⟩
  split
  · rfl
  · exact hl

theorem Durable.syncDir {d : Disk γ β} {p : List γ} {c : List β} (h : d.Durable p c)
    (q : List γ) : (d.syncDir q).Durable p c := by
  obtain ⟨hl, l, hfile⟩ := h
  refine ⟨hl.syncDir q, ?_⟩
  rw [syncDir_apply, hfile]
  dsimp only [Option.map_some]
  split
  · exact ⟨true, rfl⟩
  · exact ⟨l, rfl⟩

omit [LawfulEqOrd γ] [DecidableEq γ] in
/-- A loss of power does not touch a durable file. -/
theorem LosePower.durable {d d' : Disk γ β} (h : LosePower d d') {p : List γ} {c : List β}
    (hp : p ≠ []) (hd : d.Durable p c) : d'.Durable p c := by
  obtain ⟨hl, l, hfile⟩ := hd
  have hkept : ∀ q, q <+: p → q ≠ [] → ∃ n', d'[q]? = some n' ∧ n'.linked = true := by
    intro q hq hne
    obtain ⟨n', hn'⟩ := Option.isSome_iff_exists.mp (h.keeps q hne (hl.of_prefix hq))
    obtain ⟨_, _, hs⟩ := h.survives q n' hn'
    exact ⟨n', hn', hs.1⟩
  refine ⟨hkept, ?_⟩
  obtain ⟨n', hn'⟩ := Option.isSome_iff_exists.mp (h.keeps p hp hl)
  obtain ⟨n, hn, hs⟩ := h.survives p n' hn'
  rw [hfile] at hn
  cases hn
  obtain ⟨kind', l'⟩ := n'
  cases kind' with
  | dir => exact hs.2.elim
  | file c' s' =>
    obtain ⟨-, -, hs', hc⟩ := hs
    rw [hc rfl, hs'] at hn'
    exact ⟨l', hn'⟩

omit [LawfulEqOrd γ] [DecidableEq γ] in
/-- A loss of power makes no directories. -/
theorem LosePower.kindAt_ne_dir {d d' : Disk γ β} (h : LosePower d d') {p : List γ}
    (hd : d.kindAt p ≠ some .dir) : d'.kindAt p ≠ some .dir := by
  intro hdir
  obtain ⟨⟨k', l'⟩, hn', rfl⟩ := Option.map_eq_some_iff.mp hdir
  obtain ⟨⟨k, l⟩, hn, hs⟩ := h.survives p _ hn'
  cases k with
  | dir => exact hd (by rw [kindAt, hn]; rfl)
  | file c b => exact hs.2

/-! ## Outcomes of a loss of power -/

/-- The loss of power that keeps the entries in `keep` and, of files not fsynced, the first
`len` elements. -/
def afterLoss (keep : List γ → Bool) (len : Nat) (d : Disk γ β) : Disk γ β :=
  d.filterMap fun p n => if keep p then some (n.afterLoss len) else none

/-- Whether the entries in `keep` are all that may be left: what is kept has its parents kept,
and what is dropped has an entry on its way that never reached the platter. -/
def mayKeep (keep : List γ → Bool) (d : Disk γ β) : Bool :=
  d.toList.all fun kv =>
    if keep kv.1 then kv.1.inits.all fun q => q.isEmpty || (d[q]?.isSome && keep q)
    else kv.1.inits.any fun q => !q.isEmpty && !d[q]?.any (·.linked)

omit [DecidableEq γ] in
theorem afterLoss_apply (keep : List γ → Bool) (len : Nat) (d : Disk γ β) (p : List γ) :
    (d.afterLoss keep len)[p]? = d[p]?.bind fun n =>
      if keep p then some (n.afterLoss len) else none := by
  rw [afterLoss, ExtTreeMap.getElem?_filterMap']

omit [DecidableEq γ] in
theorem losePower_afterLoss {keep : List γ → Bool} {d : Disk γ β} (h : d.mayKeep keep = true)
    (len : Nat) : LosePower d (d.afterLoss keep len) := by
  have hkeys : ∀ {p n}, d[p]? = some n → (p, n) ∈ d.toList := fun hn =>
    ExtTreeMap.mem_toList_iff_getElem?_eq_some.mpr hn
  rw [mayKeep, List.all_eq_true] at h
  have hleft : ∀ {p : List γ}, (d.afterLoss keep len)[p]?.isSome = true →
      ∃ n, d[p]? = some n ∧ keep p = true := by
    intro p hp
    rw [afterLoss_apply] at hp
    cases hn : d[p]? with
    | none => simp [hn] at hp
    | some n => exact ⟨n, rfl, by simpa [hn] using hp⟩
  refine ⟨fun p n' hn' => ?_, fun p hne hlinked => ?_, fun p hp q hq hne => ?_⟩
  · obtain ⟨n, hn, hkeep⟩ := hleft (by rw [hn']; rfl)
    rw [afterLoss_apply, hn, Option.bind_some, if_pos hkeep] at hn'
    cases hn'
    exact ⟨n, hn, n.survives_afterLoss len⟩
  · obtain ⟨n, hn, -⟩ := hlinked p (List.prefix_refl p) hne
    have hp := h (p, n) (hkeys hn)
    by_cases hkeep : keep p = true
    · rw [afterLoss_apply, hn, Option.bind_some, if_pos hkeep]
      rfl
    · -- a dropped entry has one on its way that is not linked
      simp only [hkeep, Bool.false_eq_true, if_false, List.any_eq_true, List.mem_inits] at hp
      obtain ⟨q, hq, hunlinked⟩ := hp
      simp only [Bool.and_eq_true, Bool.not_eq_true', List.isEmpty_eq_false_iff] at hunlinked
      obtain ⟨m, hm, hlink⟩ := hlinked q hq hunlinked.1
      rw [hm] at hunlinked
      simp [hlink] at hunlinked
  · obtain ⟨n, hn, hkeep⟩ := hleft hp
    have hp := h (p, n) (hkeys hn)
    simp only [hkeep, if_true, List.all_eq_true, List.mem_inits] at hp
    have hq' := hp q hq
    simp only [Bool.or_eq_true, List.isEmpty_iff, hne, false_or, Bool.and_eq_true] at hq'
    obtain ⟨m, hm⟩ := Option.isSome_iff_exists.mp hq'.1
    rw [afterLoss_apply, hm, Option.bind_some, if_pos hq'.2]
    rfl

/-! ## Disks that agree below a path -/

/-- The two disks have the same nodes at `p` and below it. -/
def AgreeBelow (p : List γ) (d d' : Disk γ β) : Prop := ∀ q, p <+: q → d[q]? = d'[q]?

namespace AgreeBelow

variable {p q src : List γ} {d d' d'' : Disk γ β}

omit [LawfulEqOrd γ] [DecidableEq γ]

theorem refl (p : List γ) (d : Disk γ β) : AgreeBelow p d d := fun _ _ => rfl

theorem symm (h : AgreeBelow p d d') : AgreeBelow p d' d := fun q hq => (h q hq).symm

theorem trans (h : AgreeBelow p d d') (h' : AgreeBelow p d' d'') : AgreeBelow p d d'' :=
  fun q hq => (h q hq).trans (h' q hq)

theorem kindAt (h : AgreeBelow p d d') (hq : p <+: q) : d.kindAt q = d'.kindAt q :=
  kindAt_congr (h q hq)

theorem content (h : AgreeBelow p d d') (hq : p <+: q) : d.content q = d'.content q := by
  rw [Disk.content, Disk.content, h.kindAt hq]

theorem isDir (h : AgreeBelow p d d') (hq : p <+: q) : d.isDir q = d'.isDir q := by
  rw [Disk.isDir, Disk.isDir, h q hq]

/-- The entries below the path are the same. -/
theorem entries [LawfulEqOrd γ] [BEq γ] [LawfulBEq γ] (h : AgreeBelow p d d') :
    (d.toList.map (·.1)).filter p.isPrefixOf = (d'.toList.map (·.1)).filter p.isPrefixOf := by
  have hfilter : (d.filter fun q _ => p.isPrefixOf q) = d'.filter fun q _ => p.isPrefixOf q := by
    refine ExtTreeMap.ext_getElem? fun q => ?_
    rw [ExtTreeMap.getElem?_filter', ExtTreeMap.getElem?_filter']
    cases hq : p.isPrefixOf q with
    | true => rw [h q (List.isPrefixOf_iff_prefix.mp hq)]
    | false => simp
  have hkeys := congrArg ExtTreeMap.keys hfilter
  rw [ExtTreeMap.keys_filter_key, ExtTreeMap.keys_filter_key] at hkeys
  rw [ExtTreeMap.map_fst_toList_eq_keys, ExtTreeMap.map_fst_toList_eq_keys, hkeys]

variable [LawfulEqOrd γ] [DecidableEq γ]

/-! ### The same operation on both -/

theorem unlink (h : AgreeBelow p d d') (q : List γ) :
    AgreeBelow p (d.unlink q) (d'.unlink q) := fun r hr => by
  rw [unlink_apply, unlink_apply, h r hr]

theorem insert (h : AgreeBelow p d d') (q : List γ) (n : Node β) :
    AgreeBelow p (d.insert q n) (d'.insert q n) := fun r hr => by
  rw [insert_apply, insert_apply, h r hr]

theorem mkdirAll (h : AgreeBelow p d d') (q : List γ) :
    AgreeBelow p (d.mkdirAll q) (d'.mkdirAll q) := fun r hr => by
  rw [mkdirAll_apply, mkdirAll_apply, h r hr]

theorem syncDir (h : AgreeBelow p d d') (q : List γ) :
    AgreeBelow p (d.syncDir q) (d'.syncDir q) := fun r hr => by
  rw [syncDir_apply, syncDir_apply, h r hr]

theorem write (h : AgreeBelow p d d') (hq : p <+: q) (c : List β) :
    AgreeBelow p (d.write q c) (d'.write q c) := by
  rw [Disk.write, Disk.write, h q hq]
  split
  · exact h.insert q _
  · exact h

theorem syncFile (h : AgreeBelow p d d') (hq : p <+: q) :
    AgreeBelow p (d.syncFile q) (d'.syncFile q) := by
  rw [Disk.syncFile, Disk.syncFile, h q hq]
  split
  · exact h.insert q _
  · exact h

/-- A file is made on both disks or on neither. -/
theorem createNew (h : AgreeBelow p d d') (hq : p <+: q) (hdir : p <+: q.dropLast) :
    Option.Rel (AgreeBelow p) (d.createNew q) (d'.createNew q) := by
  rw [Disk.createNew, Disk.createNew, h q hq, h.isDir hdir]
  split
  · exact .some (h.insert q _)
  · exact .none

/-- A node is moved on both disks or on neither. -/
theorem rename (h : AgreeBelow p d d') (hsrc : p <+: src) (hdir : p <+: q.dropLast) :
    Option.Rel (AgreeBelow p) (d.rename src q) (d'.rename src q) := by
  rw [Disk.rename, Disk.rename, h src hsrc, h.isDir hdir]
  split
  · split
    · exact .some ((h.unlink src).insert q _)
    · exact .none
  · exact .none

/-! ### An operation somewhere else -/

theorem unlink_left (hq : ¬ p <+: q) : AgreeBelow p (d.unlink q) d := fun r hr => by
  rw [unlink_apply, if_neg fun (heq : q = r) => hq (heq ▸ hr)]

theorem mkdirAll_left (hq : ¬ p <+: q) : AgreeBelow p (d.mkdirAll q) d := fun r hr => by
  rw [mkdirAll_apply, if_neg fun hrq => hq (hr.trans hrq.1), Option.or_none]

theorem write_left (hq : ¬ p <+: q) (c : List β) : AgreeBelow p (d.write q c) d :=
  fun r hr => write_apply_of_ne d (fun (heq : r = q) => hq (heq ▸ hr)) c

theorem syncFile_left (hq : ¬ p <+: q) : AgreeBelow p (d.syncFile q) d :=
  fun r hr => syncFile_apply_of_ne d fun (heq : r = q) => hq (heq ▸ hr)

/-- An fsync of `q` reaches the entries in `q`: those below `p` are elsewhere unless `q` is
the directory `p` itself lies in. -/
theorem syncDir_left (hq : ¬ p <+: q) (hparent : q ≠ p.dropLast) :
    AgreeBelow p (d.syncDir q) d := fun r hr => by
  have hne : ¬ (r ≠ [] ∧ r.dropLast = q) := by
    rintro ⟨-, rfl⟩
    obtain ⟨rest, rfl⟩ := hr
    rcases List.eq_nil_or_concat rest with rfl | ⟨init, x, rfl⟩
    · exact hparent (by rw [List.append_nil])
    · refine hq ?_
      rw [List.concat_eq_append, ← List.append_assoc, List.dropLast_concat]
      exact List.prefix_append p init
  rw [syncDir_apply]
  simp only [hne, if_false, Option.map_id']

theorem createNew_left (hq : ¬ p <+: q) (h : d.createNew q = some d') : AgreeBelow p d' d :=
  fun r hr => by rw [(createNew_eq_some h).2, if_neg fun (heq : q = r) => hq (heq ▸ hr)]

theorem rename_left (hsrc : ¬ p <+: src) (hq : ¬ p <+: q) (h : d.rename src q = some d') :
    AgreeBelow p d' d := fun r hr => by
  obtain ⟨n, -, hd'⟩ := rename_eq_some h
  rw [hd', if_neg fun (heq : q = r) => hq (heq ▸ hr),
    if_neg fun (heq : src = r) => hsrc (heq ▸ hr)]

end AgreeBelow

end Disk

end Flywheel.Lib
