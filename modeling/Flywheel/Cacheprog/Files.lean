import Flywheel.Cacheprog.Protocol
import Flywheel.Lib.Transition

/-!
# The object files (`cacheprog/mod.rs`, `cacheprog/session.rs`)

The helpers of a machine share a directory in which the file named by a digest is the body with
that digest. A body is written to a temporary file and then renamed. The bytes that
`tokio::fs::File` was given are written by a worker of its own: `write_all` returns when the
worker has the last of them, `flush` waits until they are in the file, and nothing else waits.
`spool_verified` flushes before its rename, `write_atomic` drops the file and renames.

- `Directory`: the names, and what each file holds and has still to get.
- `Work`: a put, a get, a download or the synthesis of the empty file, at each of its steps.
- `Directory.Frame`: what the work of one leaves alone of the others' files.
- `objects_intact`: what the directory holds if every rename of `write_atomic` comes after the
  last write of the worker.
-/

set_option autoImplicit false

namespace Flywheel.Cacheprog

open Lib

/-! ## Files -/

structure File where
  content : Bytes
  /-- What the worker has been given and has not written. -/
  pending : Bytes
  /-- Whether a write of the worker has failed. -/
  failed : Bool
  deriving DecidableEq

namespace File

/-- The worker writes the next bytes. -/
def land (f : File) (count : Nat) : File :=
  { f with content := f.content ++ f.pending.take count, pending := f.pending.drop count }

/-- The write of the worker fails. -/
def lose (f : File) : File :=
  { f with pending := [], failed := f.failed || !f.pending.isEmpty }

/-- The worker has written all it was given. -/
def Written (f : File) : Prop := f.pending = [] ∧ f.failed = false

instance : DecidablePred Written := fun _ => inferInstanceAs (Decidable (_ ∧ _))

end File

/-- A file is known by the work that created it and a number. -/
structure Directory (ι : Type) where
  names : Bytes → Option (ι × Nat)
  files : ι × Nat → File
  next : Nat

/-- The names that `prune_stale_files` takes for temporary ones: from `.` to `.tmp`. -/
def isTemporary (name : Bytes) : Bool :=
  name.head? = some 46 && [46, 116, 109, 112].isSuffixOf name

namespace Directory

variable {ι : Type} [DecidableEq ι] (d : Directory ι)

def new (ι : Type) : Directory ι := ⟨fun _ => none, fun _ => ⟨[], [], false⟩, 0⟩

def read (name : Bytes) : Option Bytes := (d.names name).map fun file => (d.files file).content

def fileHasSize (name : Bytes) (size : Nat) : Bool := (d.read name).any (·.length = size)

def create (temporary : Bytes) (file : ι × Nat) : Directory ι where
  names := Function.update d.names temporary (some file)
  files := Function.update d.files file ⟨[], [], false⟩
  next := d.next + 1

def removeFile (name : Bytes) : Directory ι :=
  { d with names := Function.update d.names name none }

def rename (temporary name : Bytes) (file : ι × Nat) : Directory ι :=
  { d with names := Function.update (Function.update d.names temporary none) name (some file) }

def setFile (file : ι × Nat) (f : File) : Directory ι :=
  { d with files := Function.update d.files file f }

/-- The worker is given bytes. -/
def give (file : ι × Nat) (bytes : Bytes) : Directory ι :=
  d.setFile file { d.files file with pending := bytes }

end Directory

/-! ## Work -/

/-- What a temporary file is written for. -/
inductive Goal where
  /-- `write_disk_file`, and the output that is answered with its path. -/
  | object (name body : Bytes) (reply : Option Bytes)
  /-- `download_object` of a manifest entry. -/
  | download (name : Bytes) (size : Nat)
  deriving DecidableEq

def Goal.name : Goal → Bytes
  | .object name _ _ | .download name _ => name

inductive Work (ι : Type) where
  | idle
  /-- A get of a manifest-known action, before it looks for the file. -/
  | lookup (name : Bytes) (size : Nat)
  | start (goal : Goal)
  | create (goal : Goal)
  /-- `body` is all there is to write so far, `rest` what the worker has not been given. -/
  | write (goal : Goal) (temporary : Bytes) (file : ι × Nat) (body rest : Bytes)
  | rename (goal : Goal) (temporary : Bytes) (file : ι × Nat) (body : Bytes)
  /-- An error; or a rename that was lost, and another file may stand. -/
  | remove (goal : Goal) (temporary : Bytes) (file : ι × Nat) (lost : Bool)
  | exists (goal : Goal)
  /-- The file is there; `canonical_path` comes next. -/
  | published (name : Bytes) (reply : Option Bytes)
  | respond (name output : Bytes)
  /-- The response with the path has been written. -/
  | responded (name output : Bytes)

/-- The digest that names the empty body. -/
def emptyOutput : Bytes :=
  Loop.ascii "e3b0c44298fc1c149afbf4c8996fb92427ae41e4649b934ca495991b7852b855"

namespace Work

inductive Event where
  /-- A put request, with the body it carries. -/
  | put (output body : Bytes)
  /-- The answer to the GET of a get request. -/
  | fetched (etag : Option Bytes) (body : Bytes)
  | lookup (name : Bytes) (size : Nat)
  | synthesize
  | predict (name : Bytes) (size : Nat)
  | check
  | create (temporary : Bytes)
  | createFails
  | write (count : Nat)
  | receive (chunk : Bytes)
  | receiveFails
  | drop
  | flush
  | rename
  | renameFails
  | remove (removed : Bool)
  | exists
  | canonicalPath
  | respond
  /-- The future is dropped: the request is given up. -/
  | cancel

variable {ι : Type} [DecidableEq ι] (sha256 : Bytes → Digest) (i : ι) (d : Directory ι)

/-- What a helper takes up. -/
def begin : Event → Option (Work ι)
  | .put output body =>
    if (sha256 body).bytes = output then some (start (.object (hexEncode output) body output))
    else some idle
  | .fetched etag body =>
    let output := hexEncode (sha256 body).bytes
    if (etag.bind etagDigest).any (· ≠ output) then some idle
    else some (start (.object output body (hexDecode output)))
  | .lookup name size => some (lookup name size)
  | .synthesize => some (start (.object emptyOutput [] none))
  | .predict name size => some (start (.download name size))
  | _ => none

/-- The size tests in front of a download and of a write. -/
def check : Goal → Work ι
  | .object name body reply =>
    if d.fileHasSize name body.length then published name reply
    else create (.object name body reply)
  | .download name size =>
    if d.fileHasSize name size then idle else create (.download name size)

/-- What there is to write when the temporary file has been created. -/
def initialBody : Goal → Bytes
  | .object _ body _ => body
  | .download _ _ => []

/-- The size and the digest that `spool_verified` asks for. -/
def verified (name : Bytes) (size : Nat) (body : Bytes) : Prop :=
  body.length = size ∧ hexEncode (sha256 body).bytes = name

instance (name : Bytes) (size : Nat) (body : Bytes) : Decidable (verified sha256 name size body) :=
  inferInstanceAs (Decidable (_ ∧ _))

/-- The steps on an open temporary file. A write waits for the one before it and returns its
error. -/
def writeStep (goal : Goal) (temporary : Bytes) (file : ι × Nat) (body rest : Bytes) :
    Event → Option (Directory ι × Work ι)
  | .write count =>
    if rest ≠ [] ∧ 0 < count ∧ (d.files file).pending = [] then
      if (d.files file).failed then some (d, remove goal temporary file false)
      else
        some (d.give file (rest.take count), write goal temporary file body (rest.drop count))
    else none
  | .receive chunk =>
    match goal with
    | .download _ _ =>
      if rest = [] then some (d, write goal temporary file (body ++ chunk) chunk) else none
    | .object _ _ _ => none
  | .receiveFails =>
    match goal with
    | .download _ _ => some (d, remove goal temporary file false)
    | .object _ _ _ => none
  | .drop =>
    match goal with
    | .object _ _ _ => if rest = [] then some (d, rename goal temporary file body) else none
    | .download _ _ => none
  | .flush =>
    match goal with
    | .download name size =>
      if rest = [] ∧ (d.files file).pending = [] then
        if (d.files file).failed = false ∧ verified sha256 name size body then
          some (d, rename goal temporary file body)
        else some (d, remove goal temporary file false)
      else none
    | .object _ _ _ => none
  | _ => none

/-- The work behind the file: a write that has an answer goes on to it. -/
def publish : Goal → Work ι
  | .object name _ reply => published name reply
  | .download _ _ => idle

def canonicalPath (name : Bytes) : Option Bytes → Work ι
  | some output => if (d.names name).isSome then respond name output else idle
  | none => idle

def step (e : Event) (w : Work ι) : Option (Directory ι × Work ι) :=
  match e with
  | .cancel => some (d, idle)
  | e =>
    match w with
    | idle | responded _ _ => (begin sha256 e).map (d, ·)
    | lookup name size =>
      match e with
      | .check =>
        some (d, if d.fileHasSize name size then published name (hexDecode name) else idle)
      | _ => none
    | start goal =>
      match e with
      | .check => some (d, check d goal)
      | _ => none
    | create goal =>
      match e with
      | .create temporary =>
        if isTemporary temporary ∧ d.names temporary = none then
          some (d.create temporary (i, d.next),
            write goal temporary (i, d.next) (initialBody goal) (initialBody goal))
        else none
      | .createFails => some (d, idle)
      | _ => none
    | write goal temporary file body rest => writeStep sha256 d goal temporary file body rest e
    | rename goal temporary file _ =>
      match e with
      | .rename => some (d.rename temporary goal.name file, publish goal)
      | .renameFails => some (d, remove goal temporary file true)
      | _ => none
    | remove goal temporary _ lost =>
      match e with
      | .remove removed =>
        some (if removed then d.removeFile temporary else d, if lost then .exists goal else idle)
      | _ => none
    | .exists goal =>
      match e with
      | .exists => some (d, if (d.names goal.name).isSome then publish goal else idle)
      | _ => none
    | published name reply =>
      match e with
      | .canonicalPath => some (d, canonicalPath d name reply)
      | _ => none
    | respond name output =>
      match e with
      | .respond => some (d, responded name output)
      | _ => none

end Work

/-! ## Names -/

/-- What is hexadecimal is no temporary name. -/
theorem isTemporary_of_hexDecode {name bytes : Bytes} (h : hexDecode name = some bytes) :
    isTemporary name = false := by
  match name with
  | [] => rfl
  | [_] => cases h
  | x :: y :: rest =>
    have hx : x ≠ 46 := by
      rintro rfl
      have hnone : hexValue 46 = none := by decide
      rw [hexDecode, hnone] at h
      cases h
    simp [isTemporary, hx]

theorem isTemporary_hexEncode (bytes : Bytes) : isTemporary (hexEncode bytes) = false :=
  isTemporary_of_hexDecode (hexDecode_hexEncode bytes)

/-! ## What the worker does to a file -/

namespace File

/-- The file holds the body but for what is pending, what a failed write has lost and the rest.
Behind a failed write nothing is given to the worker. -/
def Holds (f : File) (rest body : Bytes) : Prop :=
  ∃ lost, f.content ++ f.pending ++ lost ++ rest = body ∧ (f.failed = true ↔ lost ≠ []) ∧
    (f.failed = true → f.pending = [])

/-- A turn of the worker. -/
inductive Worker (f : File) : File → Prop where
  | land (count : Nat) : Worker f (f.land count)
  | lose : Worker f f.lose

variable {f f' : File} {rest body : Bytes}

theorem Worker.eq_of_pending (h : Worker f f') (hpending : f.pending = []) : f' = f := by
  obtain ⟨content, pending, failed⟩ := f
  obtain rfl : pending = [] := hpending
  cases h with
  | land count => simp [File.land]
  | lose => simp [File.lose]

theorem Worker.holds (h : Worker f f') (hf : f.Holds rest body) : f'.Holds rest body := by
  by_cases hpending : f.pending = []
  · rwa [h.eq_of_pending hpending]
  · obtain ⟨lost, hbody, hlost, hfailed⟩ := hf
    have hnot : f.failed = false := by
      rw [← Bool.not_eq_true]
      exact fun htrue => hpending (hfailed htrue)
    obtain rfl : lost = [] := by
      by_contra hne
      exact absurd (hnot.symm.trans (hlost.mpr hne)) (by decide)
    cases h with
    | land count =>
      refine ⟨[], ?_, by simpa [File.land] using hnot, ?_⟩
      · rw [← hbody, File.land, List.append_assoc f.content, List.take_append_drop]
      · intro htrue
        exact absurd (hnot.symm.trans htrue) (by decide)
    | lose =>
      -- What was pending is what is lost.
      refine ⟨f.pending, ?_, by simp [File.lose, hpending], fun _ => rfl⟩
      rw [← hbody, File.lose, List.append_nil, List.append_nil]

theorem Holds.give (hf : f.Holds rest body) (hwritten : f.Written) (count : Nat) :
    Holds { f with pending := rest.take count } (rest.drop count) body := by
  obtain ⟨lost, hbody, hlost, -⟩ := hf
  obtain rfl : lost = [] := by
    by_contra hne
    exact absurd (hwritten.2.symm.trans (hlost.mpr hne)) (by decide)
  refine ⟨[], ?_, by simpa using hwritten.2, ?_⟩
  · rw [← hbody, hwritten.1]
    simp
  · intro htrue
    exact absurd (hwritten.2.symm.trans htrue) (by decide)

/-- The worker has written the body, or it has written a proper beginning of it. -/
theorem Holds.content (hf : f.Holds [] body) :
    f.Written ∧ f.content = body ∨
      ¬ f.Written ∧ ∃ missing, missing ≠ [] ∧ f.content ++ missing = body := by
  obtain ⟨lost, hbody, hlost, -⟩ := hf
  rw [List.append_nil, List.append_assoc] at hbody
  by_cases hmissing : f.pending ++ lost = []
  · obtain ⟨hpending, rfl⟩ := List.append_eq_nil_iff.mp hmissing
    refine .inl ⟨⟨hpending, by simpa using hlost⟩, ?_⟩
    rw [← hbody, hpending, List.append_nil, List.append_nil]
  · refine .inr ⟨fun hwritten => hmissing ?_, f.pending ++ lost, hmissing, hbody⟩
    rw [hwritten.1, List.nil_append]
    by_contra hne
    exact absurd (hwritten.2.symm.trans (hlost.mpr hne)) (by decide)

end File

/-! ## What is known of the directory and of the work on it -/

namespace Directory

variable {ι : Type}

/-- The file is the work's own, under a temporary name and no other. -/
structure Owns (d : Directory ι) (i : ι) (temporary : Bytes) (file : ι × Nat) : Prop where
  hidden : isTemporary temporary = true
  owner : file.1 = i
  created : file.2 < d.next
  named : d.names temporary = some file
  only : ∀ name, d.names name = some file → name = temporary

/-- What is not under a temporary name is complete, under the digest of its content. -/
structure Intact (sha256 : Bytes → Digest) (d : Directory ι) : Prop where
  created : ∀ name file, d.names name = some file → file.2 < d.next
  objects : ∀ name file, isTemporary name = false → d.names name = some file →
    (d.files file).pending = [] ∧ hexEncode (sha256 (d.files file).content).bytes = name

/-- There is a file for the output. -/
def Located (d : Directory ι) (name output : Bytes) : Prop :=
  (d.names name).isSome ∧ hexDecode name = some output

/-- What a step of `i` does not touch: the files of the others and the objects' names. -/
structure Frame (i : ι) (d d' : Directory ι) : Prop where
  files : ∀ file, file.1 ≠ i → d'.files file = d.files file
  next : d.next ≤ d'.next
  temporaries : ∀ name file, file.1 ≠ i → isTemporary name = true →
    d.names name = some file → d'.names name = some file
  only : ∀ name file, file.1 ≠ i → d'.names name = some file → d.names name = some file
  objects : ∀ name, isTemporary name = false → (d.names name).isSome → (d'.names name).isSome

end Directory

section

variable {ι : Type} (sha256 : Bytes → Digest)

/-- A goal's name is the digest of its body, and it is answered with that digest. -/
def Goal.Ok : Goal → Prop
  | .object name body reply =>
    hexEncode (sha256 body).bytes = name ∧
      ∀ output, reply = some output → hexDecode name = some output
  | .download _ _ => True

/-- The bytes to write are those of the goal; a download knows its body at the end only. -/
def Goal.Body : Goal → Bytes → Prop
  | .object _ body _, written => written = body
  | .download _ _, _ => True

/-- A download is renamed when its body is verified and in the file. -/
def Goal.Checked : Goal → Bytes → File → Prop
  | .object _ body _, written, _ => written = body
  | .download name _, written, f => hexEncode (sha256 written).bytes = name ∧ f.Written

def Work.Ok (d : Directory ι) (i : ι) : Work ι → Prop
  | .idle | .lookup _ _ => True
  | .start goal | .create goal | .exists goal => goal.Ok sha256
  | .write goal temporary file body rest =>
    goal.Ok sha256 ∧ d.Owns i temporary file ∧ (d.files file).Holds rest body ∧ goal.Body body
  | .rename goal temporary file body =>
    goal.Ok sha256 ∧ d.Owns i temporary file ∧ (d.files file).Holds [] body ∧
      goal.Checked sha256 body (d.files file)
  | .remove goal temporary file _ => goal.Ok sha256 ∧ d.Owns i temporary file
  | .published name reply => ∀ output, reply = some output → d.Located name output
  | .respond name output | .responded name output => d.Located name output

end

namespace Directory

variable {ι : Type} {sha256 : Bytes → Digest} {i j : ι} {d d' : Directory ι} {file : ι × Nat}
  {temporary name output : Bytes}

theorem Frame.refl (i : ι) (d : Directory ι) : Frame i d d where
  files _ _ := rfl
  next := Nat.le_refl _
  temporaries _ _ _ _ h := h
  only _ _ _ h := h
  objects _ _ h := h

theorem Frame.owns (h : Frame i d d') (hji : j ≠ i) (ho : d.Owns j temporary file) :
    d'.Owns j temporary file := by
  have hfile : file.1 ≠ i := fun heq => hji (ho.owner.symm.trans heq)
  exact ⟨ho.hidden, ho.owner, Nat.lt_of_lt_of_le ho.created h.next,
    h.temporaries _ _ hfile ho.hidden ho.named,
    fun name hname => ho.only name (h.only _ _ hfile hname)⟩

theorem Frame.files_of_owns (h : Frame i d d') (hji : j ≠ i) (ho : d.Owns j temporary file) :
    d'.files file = d.files file :=
  h.files file fun heq => hji (ho.owner.symm.trans heq)

theorem Frame.located (h : Frame i d d') (hl : d.Located name output) :
    d'.Located name output :=
  ⟨h.objects name (isTemporary_of_hexDecode hl.2) hl.1, hl.2⟩

/-- The work of others is not disturbed. -/
theorem Frame.work_ok (h : Frame i d d') (hji : j ≠ i) {w : Work ι} (hw : w.Ok sha256 d j) :
    w.Ok sha256 d' j := by
  match w with
  | .idle | .lookup _ _ | .start _ | .create _ | .exists _ => exact hw
  | .write goal temporary file body rest =>
    obtain ⟨hgoal, howns, hholds, hbody⟩ := hw
    rw [← h.files_of_owns hji howns] at hholds
    exact ⟨hgoal, h.owns hji howns, hholds, hbody⟩
  | .rename goal temporary file body =>
    obtain ⟨hgoal, howns, hholds, hchecked⟩ := hw
    rw [← h.files_of_owns hji howns] at hholds hchecked
    exact ⟨hgoal, h.owns hji howns, hholds, hchecked⟩
  | .remove goal temporary file lost => exact ⟨hw.1, h.owns hji hw.2⟩
  | .published name reply => exact fun output hreply => h.located (hw output hreply)
  | .respond name output => exact h.located hw
  | .responded name output => exact h.located hw

end Directory

/-! ## The helpers of a machine -/

/-- Any number of requests and downloads, of any number of helpers. -/
abbrev Helpers (ι : Type) : Type := Pool ι (Directory ι) (Work ι)

namespace Helpers

inductive Action (ι : Type) where
  | work (i : ι) (e : Work.Event)
  | land (file : ι × Nat) (count : Nat)
  | lose (file : ι × Nat)

variable {ι : Type} [DecidableEq ι] (sha256 : Bytes → Digest)

def fire (p : Helpers ι) : Action ι → Option (Helpers ι)
  | .work i e => Pool.fire (fun i e d w => Work.step sha256 i d e w) p i e
  | .land file count =>
    some { p with shared := p.shared.setFile file ((p.shared.files file).land count) }
  | .lose file => some { p with shared := p.shared.setFile file (p.shared.files file).lose }

/-- The file that a step renames for `write_atomic`. -/
def renames (p : Helpers ι) : Action ι → Option (ι × Nat)
  | .work i .rename =>
    match p.task i with
    | .rename (.object _ _ _) _ file _ => some file
    | _ => none
  | _ => none

/-- If the step renames for `write_atomic`, the worker has written all it was given. -/
def Settled (p : Helpers ι) (a : Action ι) : Prop :=
  ∀ file ∈ p.renames a, (p.shared.files file).Written

instance (p : Helpers ι) (a : Action ι) : Decidable (p.Settled a) :=
  inferInstanceAs (Decidable (∀ file ∈ p.renames a, _))

def system : System (Helpers ι) (Action ι) where
  init p := p.shared.Intact sha256 ∧ ∀ i, p.task i = .idle
  step p a p' := p.fire sha256 a = some p'

/-- Every file that is not temporary has the content its name says, so has the file of every
response, and so has every file that the size test accepts. -/
structure Complete (p : Helpers ι) : Prop where
  objects : ∀ name content, isTemporary name = false → p.shared.read name = some content →
    hexEncode (sha256 content).bytes = name
  responses : ∀ i name output, p.task i = .responded name output →
    ∃ content, p.shared.read name = some content ∧ (sha256 content).bytes = output
  sizes : ∀ name size, isTemporary name = false → p.shared.fileHasSize name size = true →
    ∃ content, p.shared.read name = some content ∧ content.length = size ∧
      hexEncode (sha256 content).bytes = name

end Helpers

/-! ## The operations on the directory -/

namespace Directory

variable {ι : Type} {sha256 : Bytes → Digest} {i : ι} {d : Directory ι} {file : ι × Nat}
  {temporary name : Bytes}

section

variable (h : d.Intact sha256)

include h

theorem Intact.removeFile : (d.removeFile temporary).Intact sha256 := by
  have hnames : ∀ name file, (d.removeFile temporary).names name = some file →
      d.names name = some file := by
    intro name file hname
    rcases eq_or_ne name temporary with rfl | hne
    · simp [Directory.removeFile] at hname
    · simpa [Directory.removeFile, hne] using hname
  exact ⟨fun name file hname => h.created name file (hnames name file hname),
    fun name file hnot hname => h.objects name file hnot (hnames name file hname)⟩

theorem Intact.rename (howns : d.Owns i temporary file)
    (hpending : (d.files file).pending = [])
    (hname : hexEncode (sha256 (d.files file).content).bytes = name) :
    (d.rename temporary name file).Intact sha256 := by
  have hnames : ∀ name' file', (d.rename temporary name file).names name' = some file' →
      name' = name ∧ file' = file ∨ d.names name' = some file' := by
    intro name' file' hname'
    rcases eq_or_ne name' name with rfl | hne
    · exact .inl ⟨rfl, by simpa [Directory.rename] using hname'.symm⟩
    · rcases eq_or_ne name' temporary with rfl | htemporary
      · simp [Directory.rename, hne] at hname'
      · exact .inr (by simpa [Directory.rename, hne, htemporary] using hname')
  constructor
  · intro name' file' hname'
    rcases hnames name' file' hname' with ⟨-, rfl⟩ | hold
    · exact howns.created
    · exact h.created name' file' hold
  · intro name' file' hnot hname'
    rcases hnames name' file' hname' with ⟨rfl, rfl⟩ | hold
    · exact ⟨hpending, hname⟩
    · exact h.objects name' file' hnot hold

end

section

variable (howns : d.Owns i temporary file)

include howns

/-- The own temporary name is nobody else's. -/
theorem Owns.ne_temporary {file' : ι × Nat} (hfile : file'.1 ≠ i)
    (hname : d.names name = some file') : name ≠ temporary := by
  rintro rfl
  obtain rfl := Option.some.inj (howns.named.symm.trans hname)
  exact hfile howns.owner

theorem Owns.ne_object (hnot : isTemporary name = false) : name ≠ temporary := by
  rintro rfl
  rw [howns.hidden] at hnot
  cases hnot

theorem frame_removeFile : Frame i d (d.removeFile temporary) where
  files _ _ := rfl
  next := Nat.le_refl _
  temporaries name file' hfile _ hname := by
    simpa [Directory.removeFile, howns.ne_temporary hfile hname] using hname
  only name file' hfile hname := by
    rcases eq_or_ne name temporary with rfl | hne
    · simp [Directory.removeFile] at hname
    · simpa [Directory.removeFile, hne] using hname
  objects name hnot hname := by
    simpa only [Directory.removeFile, Function.update_of_ne (howns.ne_object hnot)] using hname

theorem frame_rename (hnot : isTemporary name = false) :
    Frame i d (d.rename temporary name file) where
  files _ _ := rfl
  next := Nat.le_refl _
  temporaries name' file' hfile htemporary hname := by
    have hne : name' ≠ name := by
      rintro rfl
      rw [htemporary] at hnot
      cases hnot
    simpa [Directory.rename, hne, howns.ne_temporary hfile hname] using hname
  only name' file' hfile hname := by
    rcases eq_or_ne name' name with rfl | hne
    · obtain rfl : file = file' := by simpa [Directory.rename] using hname
      exact absurd howns.owner hfile
    · rcases eq_or_ne name' temporary with rfl | htemporary
      · simp [Directory.rename, hne] at hname
      · simpa [Directory.rename, hne, htemporary] using hname
  objects name' hnot' hname := by
    rcases eq_or_ne name' name with rfl | hne
    · simp [Directory.rename]
    · simpa only [Directory.rename, Function.update_of_ne hne,
        Function.update_of_ne (howns.ne_object hnot')] using hname

end

variable [DecidableEq ι]

section

variable (h : d.Intact sha256)

include h

theorem Intact.create (htemporary : isTemporary temporary = true) :
    (d.create temporary (i, d.next)).Intact sha256 where
  created name file hname := by
    rcases eq_or_ne name temporary with rfl | hne
    · obtain rfl : (i, d.next) = file := by simpa [Directory.create] using hname
      exact Nat.lt_succ_self _
    · have hname : d.names name = some file := by simpa [Directory.create, hne] using hname
      exact Nat.lt_succ_of_lt (h.created name file hname)
  objects name file hnot hname := by
    have hne : name ≠ temporary := by
      rintro rfl
      exact absurd (htemporary.symm.trans hnot) (by decide)
    have hname : d.names name = some file := by simpa [Directory.create, hne] using hname
    have hfile : file ≠ (i, d.next) := by
      rintro rfl
      exact absurd (h.created name _ hname) (Nat.lt_irrefl _)
    have hobject := h.objects name file hnot hname
    simpa [Directory.create, hfile] using hobject

/-- A file that only a temporary name leads to may hold anything. -/
theorem Intact.setFile (howns : d.Owns i temporary file) (f : File) :
    (d.setFile file f).Intact sha256 where
  created := h.created
  objects name file' hnot hname := by
    have hne : file' ≠ file := by
      rintro rfl
      rw [howns.only name hname, howns.hidden] at hnot
      cases hnot
    have hobject := h.objects name file' hnot hname
    simpa [Directory.setFile, hne] using hobject

/-- The worker writes nothing to an object. -/
theorem Intact.worker {f : File} (hf : (d.files file).Worker f) :
    (d.setFile file f).Intact sha256 where
  created := h.created
  objects name file' hnot hname := by
    have hobject := h.objects name file' hnot hname
    rcases eq_or_ne file' file with rfl | hne
    · rw [hf.eq_of_pending hobject.1, Directory.setFile, Function.update_eq_self]
      exact hobject
    · simpa [Directory.setFile, hne] using hobject

end

theorem frame_create (hfree : d.names temporary = none) :
    Frame i d (d.create temporary (i, d.next)) where
  files file hfile := by
    have hne : file ≠ (i, d.next) := fun heq => hfile (congrArg Prod.fst heq)
    simp [Directory.create, hne]
  next := Nat.le_succ _
  temporaries name file _ _ hname := by
    have hne : name ≠ temporary := by
      rintro rfl
      rw [hfree] at hname
      cases hname
    simpa [Directory.create, hne] using hname
  only name file hfile hname := by
    rcases eq_or_ne name temporary with rfl | hne
    · obtain rfl : (i, d.next) = file := by simpa [Directory.create] using hname
      exact absurd rfl hfile
    · simpa [Directory.create, hne] using hname
  objects name _ hname := by
    rcases eq_or_ne name temporary with rfl | hne
    · simp [Directory.create]
    · simpa [Directory.create, hne] using hname

theorem owns_create (h : d.Intact sha256) (htemporary : isTemporary temporary = true) :
    (d.create temporary (i, d.next)).Owns i temporary (i, d.next) where
  hidden := htemporary
  owner := rfl
  created := Nat.lt_succ_self _
  named := by simp [Directory.create]
  only name hname := by
    by_contra hne
    have hname : d.names name = some (i, d.next) := by simpa [Directory.create, hne] using hname
    exact absurd (h.created name _ hname) (Nat.lt_irrefl _)

theorem frame_setFile (howns : d.Owns i temporary file) (f : File) :
    Frame i d (d.setFile file f) where
  files file' hfile := by
    have hne : file' ≠ file := by
      rintro rfl
      exact hfile howns.owner
    simp [Directory.setFile, hne]
  next := Nat.le_refl _
  temporaries _ _ _ _ hname := hname
  only _ _ _ hname := hname
  objects _ _ hname := hname

end Directory

/-! ## The steps of the work -/

/-- What a step of `i` keeps and establishes. -/
structure Kept {ι : Type} (sha256 : Bytes → Digest) (i : ι) (d d' : Directory ι) (w : Work ι) :
    Prop where
  intact : d'.Intact sha256
  frame : d.Frame i d'
  ok : w.Ok sha256 d' i

namespace Work

variable {ι : Type} {sha256 : Bytes → Digest} {i : ι} {d d' : Directory ι}
  {goal : Goal} {temporary body rest name : Bytes} {file : ι × Nat} {w w' : Work ι} {e : Event}

theorem kept_of_ok (h : d.Intact sha256) (hw : w.Ok sha256 d i) : Kept sha256 i d d w :=
  ⟨h, .refl i d, hw⟩

theorem begin_ok (hempty : hexEncode (sha256 []).bytes = emptyOutput)
    (h : begin sha256 e = some w) : w.Ok sha256 d i := by
  cases e with
  | put output body =>
    rw [begin] at h
    split at h
    · rename_i hdigest
      cases h
      -- `put` has compared the digest of the body with the output.
      refine ⟨congrArg hexEncode hdigest, fun output' houtput => ?_⟩
      obtain rfl := Option.some.inj houtput
      exact hexDecode_hexEncode output
    · cases h
      trivial
  | fetched etag body =>
    rw [begin] at h
    split at h
    · cases h
      trivial
    · cases h
      -- `get` names the body by the digest it has computed.
      exact ⟨rfl, fun output houtput => houtput⟩
  | lookup name size =>
    cases h
    trivial
  | synthesize =>
    cases h
    refine ⟨hempty, fun output houtput => ?_⟩
    cases houtput
  | predict name size =>
    cases h
    trivial
  | _ => cases h

theorem isSome_of_fileHasSize {size : Nat} (h : d.fileHasSize name size = true) :
    (d.names name).isSome := by
  rw [Directory.fileHasSize, Directory.read, Option.any_map] at h
  cases hname : d.names name with
  | none =>
    rw [hname] at h
    cases h
  | some file => rfl

theorem publish_ok (hgoal : goal.Ok sha256) (hsome : (d.names goal.name).isSome) :
    (publish goal : Work ι).Ok sha256 d i := by
  cases goal with
  | object name body reply => exact fun output hreply => ⟨hsome, hgoal.2 output hreply⟩
  | download name size => trivial

theorem check_ok (hgoal : goal.Ok sha256) : (check d goal).Ok sha256 d i := by
  cases goal with
  | object name body reply =>
    rw [check]
    split
    · rename_i hsize
      exact fun output hreply => ⟨isSome_of_fileHasSize hsize, hgoal.2 output hreply⟩
    · exact hgoal
  | download name size =>
    rw [check]
    split
    · trivial
    · trivial

theorem canonicalPath_ok {reply : Option Bytes}
    (h : (published name reply : Work ι).Ok sha256 d i) :
    (canonicalPath d name reply).Ok sha256 d i := by
  cases reply with
  | none => trivial
  | some output =>
    rw [canonicalPath]
    split
    · exact h output rfl
    · trivial

/-- What is renamed when the worker has written it is the body, under its digest. -/
theorem rename_kept (h : d.Intact sha256) (hw : (rename goal temporary file body).Ok sha256 d i)
    (hwritten : (d.files file).Written) :
    Kept sha256 i d (d.rename temporary goal.name file) (publish goal) := by
  obtain ⟨hgoal, howns, hholds, hchecked⟩ := hw
  have hcontent : (d.files file).content = body :=
    (hholds.content.resolve_right fun hpartial => hpartial.1 hwritten).2
  have hname : hexEncode (sha256 (d.files file).content).bytes = goal.name := by
    rw [hcontent]
    cases goal with
    | object name body' reply =>
      obtain rfl : body = body' := hchecked
      exact hgoal.1
    | download name size => exact hchecked.1
  have hnot : isTemporary goal.name = false := hname ▸ isTemporary_hexEncode _
  refine ⟨h.rename howns hwritten.1 hname, Directory.frame_rename howns hnot, publish_ok hgoal ?_⟩
  simp [Directory.rename]

variable [DecidableEq ι]

theorem create_kept (h : d.Intact sha256) (hgoal : goal.Ok sha256)
    (htemporary : isTemporary temporary = true) (hfree : d.names temporary = none) :
    Kept sha256 i d (d.create temporary (i, d.next))
      (write goal temporary (i, d.next) (initialBody goal) (initialBody goal)) := by
  refine ⟨h.create htemporary, Directory.frame_create hfree, hgoal,
    Directory.owns_create h htemporary, ?_, ?_⟩
  · exact ⟨[], by simp [Directory.create], by simp [Directory.create], by simp [Directory.create]⟩
  · cases goal with
    | object name body reply => rfl
    | download name size => trivial

theorem writeStep_kept (h : d.Intact sha256)
    (hw : (write goal temporary file body rest).Ok sha256 d i)
    (hstep : writeStep sha256 d goal temporary file body rest e = some (d', w')) :
    Kept sha256 i d d' w' := by
  obtain ⟨hgoal, howns, hholds, hbody⟩ := hw
  have hremove : (remove goal temporary file false).Ok sha256 d i := ⟨hgoal, howns⟩
  cases e with
  | write count =>
    rw [writeStep] at hstep
    split at hstep
    · rename_i henabled
      split at hstep
      · cases hstep
        exact kept_of_ok h hremove
      · rename_i hsound
        cases hstep
        -- The worker gets the next bytes; nothing else of it was pending.
        refine ⟨h.setFile howns _, Directory.frame_setFile howns _, hgoal,
          ⟨howns.hidden, howns.owner, howns.created, howns.named, howns.only⟩, ?_, hbody⟩
        have hnot : (d.files file).failed = false := by simpa using hsound
        simpa only [Directory.give, Directory.setFile, Function.update_self] using
          hholds.give ⟨henabled.2.2, hnot⟩ count
    · cases hstep
  | receive chunk =>
    cases goal with
    | object name body reply => cases hstep
    | download name size =>
      rw [writeStep] at hstep
      split at hstep
      · rename_i hrest
        cases hstep
        obtain ⟨lost, hlost, hrest'⟩ := hholds
        refine kept_of_ok h ⟨hgoal, howns, ⟨lost, ?_, hrest'⟩, trivial⟩
        rw [← hlost, hrest, List.append_nil]
      · cases hstep
  | receiveFails =>
    cases goal with
    | object name body reply => cases hstep
    | download name size =>
      cases hstep
      exact kept_of_ok h hremove
  | drop =>
    cases goal with
    | object name body reply =>
      rw [writeStep] at hstep
      split at hstep
      · rename_i hrest
        cases hstep
        -- Dropping the file waits for nothing.
        exact kept_of_ok h ⟨hgoal, howns, hrest ▸ hholds, hbody⟩
      · cases hstep
    | download name size => cases hstep
  | flush =>
    cases goal with
    | object name body reply => cases hstep
    | download name size =>
      rw [writeStep] at hstep
      split at hstep
      · rename_i hwritten
        split at hstep
        · rename_i hverified
          cases hstep
          -- Behind the flush the bytes are in the file, and their digest is the name.
          exact kept_of_ok h ⟨hgoal, howns, hwritten.1 ▸ hholds, hverified.2.2, hwritten.2,
            hverified.1⟩
        · cases hstep
          exact kept_of_ok h hremove
      · cases hstep
  | _ => cases hstep

theorem step_kept (hempty : hexEncode (sha256 []).bytes = emptyOutput) (h : d.Intact sha256)
    (hw : w.Ok sha256 d i)
    (hsettled : ∀ name body reply temporary file written, e = .rename →
      w = rename (.object name body reply) temporary file written → (d.files file).Written)
    (hstep : step sha256 i d e w = some (d', w')) : Kept sha256 i d d' w' := by
  unfold step at hstep
  split at hstep
  · cases hstep
    exact kept_of_ok h trivial
  · split at hstep
    · obtain ⟨w₁, hbegin, heq⟩ := Option.map_eq_some_iff.mp hstep
      cases heq
      exact kept_of_ok h (begin_ok hempty hbegin)
    · obtain ⟨w₁, hbegin, heq⟩ := Option.map_eq_some_iff.mp hstep
      cases heq
      exact kept_of_ok h (begin_ok hempty hbegin)
    · rename_i name size
      split at hstep
      · cases hstep
        refine kept_of_ok h ?_
        split
        · rename_i hsize
          exact fun output hreply => ⟨isSome_of_fileHasSize hsize, hreply⟩
        · trivial
      · cases hstep
    · split at hstep
      · cases hstep
        exact kept_of_ok h (check_ok hw)
      · cases hstep
    · split at hstep
      · split at hstep
        · rename_i hfresh
          cases hstep
          exact create_kept h hw hfresh.1 hfresh.2
        · cases hstep
      · cases hstep
        exact kept_of_ok h trivial
      · cases hstep
    · exact writeStep_kept h hw hstep
    · rename_i goal temporary file body
      split at hstep
      · cases hstep
        -- The one step that the condition is about; a download has flushed.
        refine rename_kept h hw ?_
        cases goal with
        | object name body' reply => exact hsettled _ _ _ _ _ _ rfl rfl
        | download name size => exact hw.2.2.2.2
      · cases hstep
        exact kept_of_ok h ⟨hw.1, hw.2.1⟩
      · cases hstep
    · rename_i goal temporary file lost
      split at hstep
      · rename_i removed _
        cases hstep
        -- The temporary file may stay: it is nobody's object.
        have hok : ∀ d' : Directory ι,
            (if lost then .exists goal else idle : Work ι).Ok sha256 d' i := by
          intro d'
          cases lost with
          | true => exact hw.1
          | false => trivial
        cases removed with
        | true => exact ⟨h.removeFile, Directory.frame_removeFile hw.2, hok _⟩
        | false => exact kept_of_ok h (hok d)
      · cases hstep
    · split at hstep
      · cases hstep
        refine kept_of_ok h ?_
        split
        · rename_i hsome
          exact publish_ok hw hsome
        · trivial
      · cases hstep
    · split at hstep
      · cases hstep
        exact kept_of_ok h (canonicalPath_ok hw)
      · cases hstep
    · split at hstep
      · cases hstep
        exact kept_of_ok h hw
      · cases hstep

end Work

/-! ## Runs -/

namespace Helpers

variable {ι : Type} {sha256 : Bytes → Digest} {p p' : Helpers ι} {a : Action ι}

/-- The directory is intact, and every piece of work knows what it has done. -/
structure Ok (sha256 : Bytes → Digest) (p : Helpers ι) : Prop where
  intact : p.shared.Intact sha256
  work : ∀ i, (p.task i).Ok sha256 p.shared i

theorem Ok.complete (h : p.Ok sha256) : p.Complete sha256 := by
  have hobjects : ∀ name content, isTemporary name = false → p.shared.read name = some content →
      hexEncode (sha256 content).bytes = name := by
    intro name content hnot hread
    obtain ⟨file, hname, rfl⟩ := Option.map_eq_some_iff.mp hread
    exact (h.intact.objects name file hnot hname).2
  refine ⟨hobjects, ?_, ?_⟩
  · intro i name output htask
    have hlocated : p.shared.Located name output := by
      have hwork := h.work i
      rwa [htask] at hwork
    obtain ⟨file, hname⟩ := Option.isSome_iff_exists.mp hlocated.1
    refine ⟨(p.shared.files file).content, by rw [Directory.read, hname, Option.map_some], ?_⟩
    -- The name is the digest of the content, so it decodes to it.
    have hdigest := (h.intact.objects name file (isTemporary_of_hexDecode hlocated.2) hname).2
    have hdecode := hlocated.2
    rw [← hdigest, hexDecode_hexEncode] at hdecode
    exact Option.some.inj hdecode
  · intro name size hnot hsize
    obtain ⟨content, hread, hlength⟩ := (Option.any_eq_true _ _).mp hsize
    exact ⟨content, hread, of_decide_eq_true hlength, hobjects name content hnot hread⟩

variable [DecidableEq ι]

theorem Ok.worker (h : p.Ok sha256) {file : ι × Nat} {f : File}
    (hf : (p.shared.files file).Worker f) :
    Ok sha256 { p with shared := p.shared.setFile file f } := by
  refine ⟨h.intact.worker hf, fun i => ?_⟩
  have howns : ∀ {temporary file'}, p.shared.Owns i temporary file' →
      (p.shared.setFile file f).Owns i temporary file' :=
    fun ho => ⟨ho.hidden, ho.owner, ho.created, ho.named, ho.only⟩
  -- One file changes, and only by what its worker does to it.
  have hfiles : ∀ file', (p.shared.setFile file f).files file' = p.shared.files file' ∨
      file' = file ∧ (p.shared.setFile file f).files file' = f := by
    intro file'
    rcases eq_or_ne file' file with rfl | hne
    · exact .inr ⟨rfl, by simp [Directory.setFile]⟩
    · exact .inl (by simp [Directory.setFile, hne])
  have hholds : ∀ {file' rest body}, (p.shared.files file').Holds rest body →
      ((p.shared.setFile file f).files file').Holds rest body := by
    intro file' rest body hold
    rcases hfiles file' with heq | ⟨rfl, heq⟩
    · rwa [heq]
    · rw [heq]
      exact hf.holds hold
  have hwork := h.work i
  show (p.task i).Ok sha256 (p.shared.setFile file f) i
  generalize p.task i = w at hwork
  match w with
  | .idle | .lookup _ _ | .start _ | .create _ | .exists _ => exact hwork
  | .write goal temporary file' body rest =>
    obtain ⟨hgoal, ho, hold, hbody⟩ := hwork
    exact ⟨hgoal, howns ho, hholds hold, hbody⟩
  | .rename goal temporary file' body =>
    obtain ⟨hgoal, ho, hold, hchecked⟩ := hwork
    refine ⟨hgoal, howns ho, hholds hold, ?_⟩
    cases goal with
    | object name body' reply => exact hchecked
    | download name size =>
      refine ⟨hchecked.1, ?_⟩
      -- A flushed file has nothing left to write.
      rcases hfiles file' with heq | ⟨rfl, heq⟩
      · rw [heq]
        exact hchecked.2
      · rw [heq, hf.eq_of_pending hchecked.2.1]
        exact hchecked.2
  | .remove goal temporary file' lost => exact ⟨hwork.1, howns hwork.2⟩
  | .published name reply => exact hwork
  | .respond name output => exact hwork
  | .responded name output => exact hwork

theorem Ok.step (hempty : hexEncode (sha256 []).bytes = emptyOutput) (h : p.Ok sha256)
    (hsettled : p.Settled a) (hstep : p.fire sha256 a = some p') : p'.Ok sha256 := by
  cases a with
  | work i e =>
    have hstep : Pool.fire (fun i e d w => Work.step sha256 i d e w) p i e = some p' := hstep
    have hown : Work.step sha256 i p.shared e (p.task i) = some (p'.shared, p'.task i) :=
      (Pool.fire_eq_some hstep).1
    have hkept : Kept sha256 i p.shared p'.shared (p'.task i) := by
      refine Work.step_kept hempty h.intact (h.work i) ?_ hown
      rintro name body reply temporary file written rfl htask
      refine hsettled file ?_
      simp [renames, htask]
    exact ⟨hkept.intact, Pool.fire_inv (J := fun d i w => w.Ok sha256 d i) h.work hstep hkept.ok
      fun j hji hj => hkept.frame.work_ok hji hj⟩
  | land file count =>
    cases hstep
    exact h.worker (.land count)
  | lose file =>
    cases hstep
    exact h.worker .lose

/-- A rename of `write_atomic` that comes too early puts a proper beginning of the body under the
digest of the body. -/
theorem Ok.partial_of_not_settled (h : p.Ok sha256) (hnot : ¬ p.Settled a)
    (hstep : p.fire sha256 a = some p') :
    ∃ body content missing, missing ≠ [] ∧ content ++ missing = body ∧
      p'.shared.read (hexEncode (sha256 body).bytes) = some content := by
  obtain ⟨file, hfile, hunwritten⟩ : ∃ file, p.renames a = some file ∧
      ¬ (p.shared.files file).Written := by
    simpa [Settled] using hnot
  unfold renames at hfile
  split at hfile
  · rename_i i
    split at hfile
    · rename_i name body reply temporary _ written htask
      cases hfile
      have hok := h.work i
      rw [htask] at hok
      obtain ⟨hgoal, -, hholds, hchecked⟩ := hok
      obtain rfl : written = body := hchecked
      obtain ⟨missing, hmissing, hbody⟩ :=
        (hholds.content.resolve_left fun hwhole => hunwritten hwhole.1).2
      refine ⟨written, (p.shared.files file).content, missing, hmissing, hbody, ?_⟩
      have hstep : Pool.fire (fun i e d w => Work.step sha256 i d e w) p i .rename = some p' :=
        hstep
      have hrename := (Pool.fire_eq_some hstep).1
      rw [htask] at hrename
      obtain ⟨hdirectory, -⟩ := Prod.mk.inj (Option.some.inj hrename)
      rw [hgoal.1, ← hdirectory]
      simp [Directory.read, Directory.rename, Goal.name]
    · cases hfile
  · cases hfile

/-- As long as `write_atomic` renames only what its worker has written, the directory holds
complete objects under their digests, at every moment of every run; and the first rename that
comes too early puts a proper beginning of the body under the digest of the body. -/
theorem objects_intact (sha256 : Bytes → Digest)
    (hempty : hexEncode (sha256 []).bytes = emptyOutput)
    (h : (system sha256).Reach Settled p) :
    p.Complete sha256 ∧
      ∀ a p', ¬ p.Settled a → p.fire sha256 a = some p' →
        ∃ body content missing, missing ≠ [] ∧ content ++ missing = body ∧
          p'.shared.read (hexEncode (sha256 body).bytes) = some content := by
  have hok : p.Ok sha256 := by
    refine h.invariant (I := Ok sha256) ?_ ?_
    · intro p₀ hinit
      refine ⟨hinit.1, fun i => ?_⟩
      rw [hinit.2 i]
      trivial
    · intro p a p' hp hsettled hstep
      exact hp.step hempty hsettled hstep
  exact ⟨hok.complete, fun a p' hnot hstep => hok.partial_of_not_settled hnot hstep⟩

/-! ### A put of the body `a` -/

/-- SHA-256 of the empty body. -/
def emptyDigest : Digest :=
  ⟨[0xe3, 0xb0, 0xc4, 0x42, 0x98, 0xfc, 0x1c, 0x14, 0x9a, 0xfb, 0xf4, 0xc8, 0x99, 0x6f, 0xb9, 0x24,
    0x27, 0xae, 0x41, 0xe4, 0x64, 0x9b, 0x93, 0x4c, 0xa4, 0x95, 0x99, 0x1b, 0x78, 0x52, 0xb8, 0x55],
    rfl⟩

/-- SHA-256 of the body `a`. -/
def letterDigest : Digest :=
  ⟨[0xca, 0x97, 0x81, 0x12, 0xca, 0x1b, 0xbd, 0xca, 0xfa, 0xc2, 0x31, 0xb3, 0x9a, 0x23, 0xdc, 0x4d,
    0xa7, 0x86, 0xef, 0xf8, 0x14, 0x7c, 0x4e, 0x72, 0xb9, 0x80, 0x77, 0x85, 0xaf, 0xee, 0x48, 0xbb],
    rfl⟩

/-- SHA-256 on the bodies of the sample. -/
def sampleSha256 (body : Bytes) : Digest := if body = [] then emptyDigest else letterDigest

/-- `.0.1.tmp`. -/
def sampleTemporary : Bytes := [46, 48, 46, 49, 46, 116, 109, 112]

def sampleHelpers : Helpers Unit := ⟨.new Unit, fun _ => .idle⟩

/-- The steps of the put as far as its rename; the worker has its byte. -/
def samplePut : List (Action Unit) :=
  [.put (sampleSha256 [97]).bytes [97], .check, .create sampleTemporary, .write 1, .drop].map
    (.work ())

/-- The steps from the rename to the response. -/
def sampleResponse : List (Action Unit) :=
  [.rename, .canonicalPath, .respond].map (.work ())

theorem sampleHelpers_init : (system sampleSha256).init sampleHelpers := by
  refine ⟨⟨?_, ?_⟩, fun _ => rfl⟩
  · intro name file hname
    cases hname
  · intro name file hnot hname
    cases hname

/-- The response stands for the file with that content. -/
def responds (content : Bytes) (p : Helpers Unit) : Bool :=
  match p.task () with
  | .responded name output =>
    output = (sampleSha256 [97]).bytes && !isTemporary name && p.shared.read name = some content
  | _ => false

/-- The worker writes the byte before the rename. -/
theorem put_written :
    ∃ p, (system sampleSha256).Reach Settled p ∧ responds [97] p = true ∧
      p.Complete sampleSha256 := by
  have hexec : (System.exec (fire sampleSha256) (fun p a => decide (p.Settled a)) sampleHelpers
      (samplePut ++ .land ((), 0) 1 :: sampleResponse)).any (responds [97]) = true := by
    decide
  obtain ⟨p, hreach, hcheck⟩ : ∃ p, (system sampleSha256).Reach Settled p ∧
      responds [97] p = true :=
    System.reach_of_exec (fun _ _ _ h => h) (fun _ _ h => of_decide_eq_true h)
      sampleHelpers_init hexec
  exact ⟨p, hreach, hcheck, (objects_intact sampleSha256 (by decide) hreach).1⟩

/-- The rename comes first: the response is written while the file is empty. -/
theorem put_renamed_early :
    hexEncode (sampleSha256 []).bytes = emptyOutput ∧
      ¬ ∀ p : Helpers Unit, (system sampleSha256).Reach (fun _ _ => True) p →
        p.Complete sampleSha256 := by
  refine ⟨by decide, fun hall => ?_⟩
  have hexec : (System.exec (fire sampleSha256) (fun _ _ => true) sampleHelpers
      (samplePut ++ sampleResponse)).any (responds []) = true := by
    decide
  obtain ⟨p, hreach, hcheck⟩ : ∃ p, (system sampleSha256).Reach (fun _ _ => True) p ∧
      responds [] p = true :=
    System.reach_of_exec (fun _ _ _ h => h) (fun _ _ _ => trivial) sampleHelpers_init hexec
  unfold responds at hcheck
  split at hcheck
  · rename_i name output htask
    obtain ⟨⟨houtput, -⟩, hread⟩ : (output = (sampleSha256 [97]).bytes ∧ isTemporary name = false) ∧
        p.shared.read name = some [] := by
      simpa using hcheck
    obtain ⟨content, hcontent, hdigest⟩ := (hall p hreach).responses () name output htask
    obtain rfl := Option.some.inj (hread.symm.trans hcontent)
    exact absurd (hdigest.trans houtput) (by decide)
  · cases hcheck

end Helpers

end Flywheel.Cacheprog
