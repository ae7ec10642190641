import Flywheel.Cacheprog.Files
import Mathlib.Data.List.Nodup

/-!
# Prefetch (`cacheprog/session.rs`, and `get` of `cacheprog/mod.rs`)

At startup a helper installs the manifest of the last build and downloads what it predicts, while
the build asks for the same objects. A download is marked as in flight from before it queues for
a permit until it has ended; a get that finds no file waits for the mark to go, and a download
looks for the file again before it sends its request.

The file test of a get and its look at the mark are two steps, and the manifest is there before
the marks are: a get may find neither the file nor the mark of an object that is being, has been
or will be downloaded.

- `Session`: the manifest, the marks, the files and the downloads of the pool.
- `Get.step`, `Session.step`: the steps of a get and of the prefetch task.
- `Once`: an object that nobody, one, or one who has finished has fetched.
- `Apart`: no request is sent while the object is there or another fetches it.
- `downloaded_once`: as long as the steps are apart, every object is downloaded at most once if the
  manifest is right about the sizes, and the first step that is not is a second download.
- `downloaded_once_of_calm`: the steps are apart on a schedule on which no download ends between the
  file test of a get and its look at the mark, and nobody else asks for what a get fetches.
-/

set_option autoImplicit false

namespace Flywheel.Cacheprog

open Lib

/-! ## The session -/

/-- A download of the pool, with the size that its manifest entry gives. -/
inductive Download where
  | none
  /-- Marked; behind the concurrency bound. -/
  | queued (size : UInt64)
  /-- With a permit, before it looks for the file once more. -/
  | recheck (size : UInt64)
  /-- The request is sent. -/
  | fetching (size : UInt64)
  /-- Ended; the permit is dropped next. -/
  | dropPermit
  /-- The mark is dropped next. -/
  | dropMarker
  | ended
  deriving DecidableEq

inductive Phase where
  | waiting
  /-- The loop over the manifest. -/
  | scanning (rest : List ManifestEntry) (seen : List Bytes) (wanted : List ManifestEntry)
  /-- The downloads are collected, each of them being marked. -/
  | marking (rest : List ManifestEntry)
  | downloading
  /-- Downloads are disabled. -/
  | disabled

structure Session where
  manifest : Option (List (Bytes × ManifestEntry))
  inflight : Bytes → Bool
  /-- The sizes of the files of the directory. -/
  files : Bytes → Option UInt64
  permits : Nat
  phase : Phase
  downloads : Bytes → Download
  /-- How many requests were sent for an object. -/
  requests : Bytes → Nat

namespace Session

def new (files : Bytes → Option UInt64) (concurrency : Nat) : Session :=
  ⟨none, fun _ => false, files, concurrency, .waiting, fun _ => .none, fun _ => 0⟩

variable (s : Session)

def manifestEntry (action : Bytes) : Option ManifestEntry := do
  let entries ← s.manifest
  let found ← entries.find? (·.1 = action)
  return found.2

def fileHasSize (name : Bytes) (size : UInt64) : Bool := s.files name = some size

def beginDownload (entry : ManifestEntry) : Session :=
  { s with
    inflight := Function.update s.inflight entry.output true
    downloads := Function.update s.downloads entry.output (.queued entry.size) }

def setDownload (output : Bytes) (download : Download) : Session :=
  { s with downloads := Function.update s.downloads output download }

/-- A request for an object. -/
def request (output : Bytes) : Session :=
  { s with requests := Function.update s.requests output (s.requests output + 1) }

/-- An object gets into the directory. -/
def publish (output : Bytes) (size : UInt64) : Session :=
  { s with files := Function.update s.files output (some size) }

end Session

/-! ## A get of a manifest-known action -/

inductive Get where
  | idle
  | test (entry : ManifestEntry)
  /-- There was no file; the mark is looked up next. -/
  | lookup (entry : ManifestEntry)
  | wait (entry : ManifestEntry)
  | retest (entry : ManifestEntry)
  /-- The request is sent. -/
  | fetching (entry : ManifestEntry)

namespace Get

inductive Event where
  | start (action : Bytes)
  | run
  /-- The download fails. -/
  | fail

/-- `size` gives the size of the object with a digest. -/
def step (size : Bytes → UInt64) (e : Event) (s : Session) : Get → Option (Session × Get)
  | idle =>
    match e with
    | .start action => (s.manifestEntry action).map fun entry => (s, test entry)
    | _ => none
  | test entry =>
    match e with
    | .run => some (s, if s.fileHasSize entry.output entry.size then idle else lookup entry)
    | _ => none
  | lookup entry =>
    match e with
    | .run =>
      if s.inflight entry.output then some (s, wait entry)
      else some (s.request entry.output, fetching entry)
    | _ => none
  | wait entry =>
    match e with
    | .run => if s.inflight entry.output then none else some (s, retest entry)
    | _ => none
  | retest entry =>
    match e with
    | .run =>
      if s.fileHasSize entry.output entry.size then some (s, idle)
      else some (s.request entry.output, fetching entry)
    | _ => none
  | fetching entry =>
    match e with
    | .run => some (s.publish entry.output (size entry.output), idle)
    | .fail => some (s, idle)
    | _ => none

/-- The object that a get has sent a request for. -/
def target : Get → Option Bytes
  | fetching entry => some entry.output
  | _ => none

end Get

/-! ## The prefetch task -/

namespace Session

inductive Event where
  | install
  /-- One entry of the manifest; `written` is whether a synthesized file was written. -/
  | scan (written : Bool)
  | mark
  | acquire (output : Bytes)
  | recheck (output : Bytes)
  | finish (output : Bytes)
  | fail (output : Bytes)
  | dropPermit (output : Bytes)
  | dropMarker (output : Bytes)

variable (s : Session)

/-- One turn of the loop over the manifest. -/
def scan (entry : ManifestEntry) (written : Bool) (rest : List ManifestEntry)
    (seen : List Bytes) (wanted : List ManifestEntry) : Session :=
  if entry.output ∈ seen then { s with phase := .scanning rest seen wanted }
  else
    let seen := entry.output :: seen
    if entry.size = 0 then
      if entry.output = emptyOutput ∧ written then
        { s.publish emptyOutput 0 with phase := .scanning rest seen wanted }
      else { s with phase := .scanning rest seen wanted }
    else if s.fileHasSize entry.output entry.size then
      { s with phase := .scanning rest seen wanted }
    else { s with phase := .scanning rest seen (wanted ++ [entry]) }

/-- A step of the download of an object. -/
def downloadStep (size : Bytes → UInt64) : Event → Option Session
  | .acquire output =>
    match s.downloads output with
    | .queued expected =>
      if 0 < s.permits then
        some { s.setDownload output (.recheck expected) with permits := s.permits - 1 }
      else none
    | _ => none
  | .recheck output =>
    match s.downloads output with
    | .recheck expected =>
      if s.fileHasSize output expected then some (s.setDownload output .dropPermit)
      else some ((s.request output).setDownload output (.fetching expected))
    | _ => none
  | .finish output =>
    match s.downloads output with
    | .fetching expected =>
      -- A body of another size or digest is not published.
      if expected = size output then
        some ((s.publish output expected).setDownload output .dropPermit)
      else some (s.setDownload output .dropPermit)
    | _ => none
  | .fail output =>
    match s.downloads output with
    | .fetching _ => some (s.setDownload output .dropPermit)
    | _ => none
  | .dropPermit output =>
    match s.downloads output with
    | .dropPermit => some { s.setDownload output .dropMarker with permits := s.permits + 1 }
    | _ => none
  | .dropMarker output =>
    match s.downloads output with
    | .dropMarker =>
      some { s.setDownload output .ended with
        inflight := Function.update s.inflight output false }
    | _ => none
  | _ => none

/-- `prefetch`; the order of the entries is that of a hash map. -/
def step (size : Bytes → UInt64) (entries : List (Bytes × ManifestEntry)) (concurrency : Nat)
    (e : Event) : Option Session :=
  match s.phase with
  | .waiting =>
    match e with
    | .install =>
      some { s with manifest := some entries, phase := .scanning (entries.map (·.2)) [] [] }
    | _ => none
  | .scanning (entry :: rest) seen wanted =>
    match e with
    | .scan written => some (s.scan entry written rest seen wanted)
    | _ => none
  | .scanning [] _ wanted =>
    match e with
    | .scan _ => some { s with phase := if concurrency = 0 then .disabled else .marking wanted }
    | _ => none
  | .marking (entry :: rest) =>
    match e with
    | .mark => some { s.beginDownload entry with phase := .marking rest }
    | _ => none
  | .marking [] =>
    match e with
    | .mark => some { s with phase := .downloading }
    | _ => none
  | .downloading => s.downloadStep size e
  | .disabled => none

end Session

/-! ## Runs -/

/-- A session, and any number of gets. -/
abbrev Build (ι : Type) : Type := Pool ι Session Get

namespace Build

inductive Action (ι : Type) where
  | get (i : ι) (e : Get.Event)
  | prefetch (e : Session.Event)

variable {ι : Type}

/-- Every download delivers the object. -/
def Succeeds : Action ι → Prop
  | .get _ .fail | .prefetch (.fail _) => False
  | _ => True

instance : (a : Action ι) → Decidable (Succeeds a)
  | .get _ .fail | .prefetch (.fail _) => .isFalse id
  | .get _ (.start _) | .get _ .run | .prefetch .install | .prefetch (.scan _) | .prefetch .mark
  | .prefetch (.acquire _) | .prefetch (.recheck _) | .prefetch (.finish _)
  | .prefetch (.dropPermit _) | .prefetch (.dropMarker _) => .isTrue trivial

/-- The entry of a get or of a download for which a step sends a request, with the file test that
came before it and the mark as they stand. -/
def sends (p : Build ι) : Action ι → Option (Bytes × UInt64)
  | .get i .run =>
    match p.task i with
    | .lookup entry =>
      if p.shared.inflight entry.output then none else some (entry.output, entry.size)
    | _ => none
  | .prefetch (.recheck output) =>
    match p.shared.downloads output with
    | .recheck expected =>
      if p.shared.fileHasSize output expected then none else some (output, expected)
    | _ => none
  | _ => none

/-- A get that finds no mark, and a download that finds no file, do so while the object is not
there and no get fetches it. -/
def Apart (p : Build ι) (a : Action ι) : Prop :=
  ∀ output expected, p.sends a = some (output, expected) → output ≠ emptyOutput →
    p.shared.fileHasSize output expected = false ∧ ∀ j, (p.task j).target ≠ some output

/-- The manifest gives the objects their sizes. -/
def Truthful (size : Bytes → UInt64) (entries : List (Bytes × ManifestEntry)) : Prop :=
  ∀ pair ∈ entries, pair.2.output ≠ emptyOutput → pair.2.size = size pair.2.output

section

variable [DecidableEq ι] (size : Bytes → UInt64) (entries : List (Bytes × ManifestEntry))
  (concurrency : Nat)

def fire (p : Build ι) : Action ι → Option (Build ι)
  | .get i e => Pool.fire (fun _ e s g => Get.step size e s g) p i e
  | .prefetch e =>
    (p.shared.step size entries concurrency e).map fun s => { p with shared := s }

def system : System (Build ι) (Action ι) where
  init p := ∃ files, p = ⟨.new files concurrency, fun _ => .idle⟩
  step p a p' := p.fire size entries concurrency a = some p'

end

end Build

/-! ## At most once -/

/-- An object of which it is known who fetches it, whether it is there and how many requests were
sent for it: nobody has fetched it, or one does, or it is there. -/
structure Once {χ : Type} (fetches : χ → Prop) (present : Prop) (requests : Nat) : Prop where
  unique : ∀ x y, fetches x → fetches y → x = y
  fetching : ∀ x, fetches x → ¬ present ∧ requests = 1
  absent : (∀ x, ¬ fetches x) → ¬ present → requests = 0
  once : requests ≤ 1

namespace Once

variable {χ : Type} {fetches fetches' : χ → Prop} {present present' : Prop}
  {requests requests' : Nat} {x : χ}

theorem begins (h : Once fetches present requests) (hnone : ∀ x, ¬ fetches x) (habsent : ¬ present)
    (hfetches : ∀ y, fetches' y → fetches y ∨ y = x) (hx : fetches' x)
    (hrequests : requests' = requests + 1) : Once fetches' present requests' := by
  have hzero : requests = 0 := h.absent hnone habsent
  have honly : ∀ y, fetches' y → y = x := fun y hy => (hfetches y hy).resolve_left (hnone y)
  refine ⟨fun y z hy hz => (honly y hy).trans (honly z hz).symm,
    fun y _ => ⟨habsent, by omega⟩, fun hno => absurd hx (hno x), by omega⟩

theorem ends (h : Once fetches present requests)
    (hfetches : ∀ y, fetches' y → fetches y ∧ y ≠ x) (hx : fetches x) (hpresent : present') :
    Once fetches' present' requests := by
  have hno : ∀ y, ¬ fetches' y := by
    intro y hy
    obtain ⟨hold, hne⟩ := hfetches y hy
    exact hne (h.unique y x hold hx)
  exact ⟨fun y _ hy => absurd hy (hno y), fun y hy => absurd hy (hno y),
    fun _ habsent => absurd hpresent habsent, h.once⟩

theorem congr (h : Once fetches present requests) (hfetches : ∀ y, fetches' y ↔ fetches y)
    (hpresent : present' ↔ present) : Once fetches' present' requests := by
  obtain rfl : fetches' = fetches := funext fun y => propext (hfetches y)
  obtain rfl : present' = present := propext hpresent
  exact h

/-- A request that is sent while one fetches the object is the second one. -/
theorem eq_one (h : Once fetches present requests) (hbusy : ∃ x, fetches x) : requests = 1 := by
  obtain ⟨x, hx⟩ := hbusy
  exact (h.fetching x hx).2

end Once

/-! ## What is known in a run -/

section

variable (size : Bytes → UInt64) (s : Session)

/-- An entry of an object gives its size. -/
def ManifestEntry.Fits (entry : ManifestEntry) : Prop :=
  entry.output ≠ emptyOutput → entry.size = size entry.output

/-- The object is there. -/
def Session.Present (output : Bytes) : Prop := s.files output = some (size output)

/-- What a get has learnt: the file came by a request if it has come since the test, and is there
when the mark has gone. -/
def Get.Ok : Get → Prop
  | .idle => True
  | .test entry | .fetching entry => entry.Fits size
  | .lookup entry => entry.Fits size ∧
      (entry.output ≠ emptyOutput → s.Present size entry.output → 0 < s.requests entry.output)
  | .wait entry => entry.Fits size ∧
      (entry.output ≠ emptyOutput → s.inflight entry.output = true ∨ s.Present size entry.output)
  | .retest entry => entry.Fits size ∧
      (entry.output ≠ emptyOutput → s.Present size entry.output)

/-- A download is marked until it has ended, and then the object is there. -/
def Download.Ok (output : Bytes) : Download → Prop
  | .none | .ended => True
  | .queued expected | .recheck expected | .fetching expected =>
    expected = size output ∧ s.inflight output = true
  | .dropPermit | .dropMarker => s.inflight output = true ∧ s.Present size output

/-- No output is marked twice. -/
def Phase.Ok : Phase → Prop
  | .waiting => ∀ output, s.downloads output = .none
  | .scanning rest seen wanted =>
    (∀ entry ∈ rest, entry.Fits size) ∧ (∀ entry ∈ wanted, entry.Fits size) ∧
      (wanted.map (·.output)).Nodup ∧ (∀ entry ∈ wanted, entry.output ∈ seen) ∧
      ∀ output, s.downloads output = .none
  | .marking rest =>
    (∀ entry ∈ rest, entry.Fits size) ∧ (rest.map (·.output)).Nodup ∧
      ∀ entry ∈ rest, s.downloads entry.output = .none
  | .downloading | .disabled => True

end

namespace Build

variable {ι : Type} (size : Bytes → UInt64) (p : Build ι)

/-- A get, or the pool, has sent a request for the object and has not published it. -/
def Fetches (output : Bytes) : Option ι → Prop
  | some i => (p.task i).target = some output
  | none => ∃ expected, p.shared.downloads output = .fetching expected

structure Ok : Prop where
  manifest : ∀ action entry, p.shared.manifestEntry action = some entry → entry.Fits size
  phase : p.shared.phase.Ok size p.shared
  downloads : ∀ output, output ≠ emptyOutput → (p.shared.downloads output).Ok size p.shared output
  gets : ∀ i, (p.task i).Ok size p.shared
  once : ∀ output, output ≠ emptyOutput →
    Once (p.Fetches output) (p.shared.Present size output) (p.shared.requests output)

end Build

/-- What a get may rely on: an object that is there stays, a mark goes when the object is there,
and an object comes by a request. -/
structure Session.LaterAt (size : Bytes → UInt64) (s s' : Session) (output : Bytes) : Prop where
  present : s.Present size output → s'.Present size output
  requests : s.requests output ≤ s'.requests output
  inflight : s.inflight output = true → s'.inflight output = true ∨ s'.Present size output
  comes : s'.Present size output → s.Present size output ∨ 0 < s'.requests output

def Session.Later (size : Bytes → UInt64) (s s' : Session) : Prop :=
  ∀ output, output ≠ emptyOutput → s.LaterAt size s' output

/-- Nothing has become of an object. -/
structure Session.SameAt (s s' : Session) (output : Bytes) : Prop where
  files : s'.files output = s.files output
  inflight : s'.inflight output = s.inflight output
  downloads : s'.downloads output = s.downloads output
  requests : s'.requests output = s.requests output

section

variable {size : Bytes → UInt64} {s s' : Session} {output : Bytes}

theorem Session.Later.get_ok (h : s.Later size s') {g : Get} (hg : g.Ok size s) :
    g.Ok size s' := by
  match g with
  | .idle | .test _ | .fetching _ => exact hg
  | .lookup entry =>
    refine ⟨hg.1, fun hempty hpresent => ?_⟩
    have hlater := h entry.output hempty
    rcases hlater.comes hpresent with hold | hnew
    · exact Nat.lt_of_lt_of_le (hg.2 hempty hold) hlater.requests
    · exact hnew
  | .wait entry =>
    refine ⟨hg.1, fun hempty => ?_⟩
    rcases hg.2 hempty with hmark | hpresent
    · exact (h entry.output hempty).inflight hmark
    · exact .inr ((h entry.output hempty).present hpresent)
  | .retest entry => exact ⟨hg.1, fun hempty => (h entry.output hempty).present (hg.2 hempty)⟩

theorem Session.SameAt.refl (s : Session) (output : Bytes) : s.SameAt s output :=
  ⟨rfl, rfl, rfl, rfl⟩

theorem Session.SameAt.present_iff (h : s.SameAt s' output) :
    s'.Present size output ↔ s.Present size output := by
  rw [Session.Present, h.files, Session.Present]

theorem Session.SameAt.later (h : s.SameAt s' output) : s.LaterAt size s' output where
  present := h.present_iff.mpr
  requests := h.requests.ge
  inflight hmark := .inl (h.inflight.trans hmark)
  comes hpresent := .inl (h.present_iff.mp hpresent)

theorem Session.sameAt_request {output' : Bytes} (hne : output' ≠ output) :
    s.SameAt (s.request output) output' :=
  ⟨rfl, rfl, rfl, by simp [Session.request, hne]⟩

theorem Session.sameAt_publish {output' : Bytes} {expected : UInt64} (hne : output' ≠ output) :
    s.SameAt (s.publish output expected) output' :=
  ⟨by simp [Session.publish, hne], rfl, rfl, rfl⟩

theorem Session.laterAt_request : s.LaterAt size (s.request output) output where
  present h := h
  requests := by simp [Session.request]
  inflight h := .inl h
  comes h := .inl h

theorem Session.present_publish : (s.publish output (size output)).Present size output := by
  simp [Session.Present, Session.publish]

theorem Session.laterAt_publish (hrequests : 0 < s.requests output) :
    s.LaterAt size (s.publish output (size output)) output where
  present _ := Session.present_publish
  requests := Nat.le_refl _
  inflight h := .inl h
  comes _ := .inr hrequests

/-- What is shown for one object holds for all if nothing has become of the others. -/
theorem Session.Later.of_sameAt (hother : ∀ output', output' ≠ output → s.SameAt s' output')
    (hat : output ≠ emptyOutput → s.LaterAt size s' output) : s.Later size s' := by
  intro output' hempty
  rcases eq_or_ne output' output with rfl | hne
  · exact hat hempty
  · exact (hother output' hne).later

theorem Session.later_request (s : Session) (output : Bytes) :
    s.Later size (s.request output) :=
  .of_sameAt (fun _ => Session.sameAt_request) fun _ => Session.laterAt_request

/-- A download is as good when the object may have come. -/
theorem Download.Ok.mono {download : Download}
    (h : download.Ok size s output) (hinflight : s'.inflight output = s.inflight output)
    (hpresent : s.Present size output → s'.Present size output) :
    download.Ok size s' output := by
  cases download with
  | none => trivial
  | ended => trivial
  | queued expected => exact ⟨h.1, hinflight.trans h.2⟩
  | recheck expected => exact ⟨h.1, hinflight.trans h.2⟩
  | fetching expected => exact ⟨h.1, hinflight.trans h.2⟩
  | dropPermit => exact ⟨hinflight.trans h.1, hpresent h.2⟩
  | dropMarker => exact ⟨hinflight.trans h.1, hpresent h.2⟩

theorem Phase.Ok.mono {phase : Phase} (h : phase.Ok size s)
    (hdownloads : s'.downloads = s.downloads) : phase.Ok size s' := by
  cases phase with
  | waiting => exact fun output => hdownloads ▸ h output
  | scanning rest seen wanted =>
    obtain ⟨hrest, hwanted, hnodup, hseen, hnone⟩ := h
    exact ⟨hrest, hwanted, hnodup, hseen, fun output => hdownloads ▸ hnone output⟩
  | marking rest =>
    obtain ⟨hrest, hnodup, hnone⟩ := h
    exact ⟨hrest, hnodup, fun entry hentry => hdownloads ▸ hnone entry hentry⟩
  | downloading => trivial
  | disabled => trivial

theorem Phase.ok_downloading (h : s.phase = .downloading) : s.phase.Ok size s := by
  rw [h]
  trivial

theorem fileHasSize_iff_present {entry : ManifestEntry} (hfits : entry.Fits size)
    (hempty : entry.output ≠ emptyOutput) :
    s.fileHasSize entry.output entry.size = true ↔ s.Present size entry.output := by
  rw [Session.fileHasSize, hfits hempty, decide_eq_true_iff, Session.Present]

end

/-! ## The steps of a get -/

namespace Build

variable {ι : Type} {size : Bytes → UInt64} {p p' : Build ι} {i : ι} {entry : ManifestEntry}

/-- A get that finds neither a file nor a mark, while no get fetches the object. -/
theorem Ok.free (h : p.Ok size) (hfits : entry.Fits size)
    (hmark : p.shared.inflight entry.output = false) (hempty : entry.output ≠ emptyOutput)
    (habsent : p.shared.fileHasSize entry.output entry.size = false)
    (hnone : ∀ j, (p.task j).target ≠ some entry.output) :
    (∀ x, ¬ p.Fetches entry.output x) ∧ ¬ p.shared.Present size entry.output := by
  constructor
  · intro x hx
    cases x with
    | some j => exact hnone j hx
    | none =>
      -- What the pool fetches is marked.
      obtain ⟨expected, hfetching⟩ := hx
      have hdownload := h.downloads entry.output hempty
      rw [hfetching] at hdownload
      exact absurd (hmark.symm.trans hdownload.2) (by decide)
  · rw [← fileHasSize_iff_present hfits hempty, habsent]
    decide

variable [DecidableEq ι]

theorem fetches_update {s : Session} {g : Get} {output : Bytes} {x : Option ι}
    (hs : s.downloads = p.shared.downloads) :
    Fetches ⟨s, Function.update p.task i g⟩ output x ↔
      x = some i ∧ g.target = some output ∨ x ≠ some i ∧ p.Fetches output x := by
  cases x with
  | none => simp [Fetches, hs]
  | some j =>
    rcases eq_or_ne j i with rfl | hne
    · simp [Fetches]
    · simp [Fetches, hne]

theorem gets_update {s : Session} {g : Get} (h : p.Ok size) (hs : p.shared.Later size s)
    (hg : g.Ok size s) (j : ι) : (Function.update p.task i g j).Ok size s := by
  rcases eq_or_ne j i with rfl | hne
  · rwa [Function.update_self]
  · rw [Function.update_of_ne hne]
    exact hs.get_ok (h.gets j)

/-- Neither before nor after it does the get fetch this object. -/
theorem fetches_update_of_ne {s : Session} {g : Get} {output : Bytes}
    (hs : s.downloads = p.shared.downloads) (hold : (p.task i).target ≠ some output)
    (hnew : g.target ≠ some output) (x : Option ι) :
    Fetches ⟨s, Function.update p.task i g⟩ output x ↔ p.Fetches output x := by
  rw [fetches_update hs]
  constructor
  · rintro (⟨-, htarget⟩ | ⟨-, hx⟩)
    · exact absurd htarget hnew
    · exact hx
  · intro hx
    refine .inr ⟨?_, hx⟩
    rintro rfl
    exact hold hx

/-- A get moves on without a request. -/
theorem Ok.move {g : Get} (h : p.Ok size) (hold : (p.task i).target = none)
    (hg : g.Ok size p.shared) (hnew : g.target = none) :
    Ok size ⟨p.shared, Function.update p.task i g⟩ where
  manifest := h.manifest
  phase := h.phase
  downloads := h.downloads
  gets := gets_update h (fun output _ => (Session.SameAt.refl p.shared output).later) hg
  once output hempty := by
    refine (h.once output hempty).congr (fetches_update_of_ne rfl ?_ ?_) Iff.rfl
    · simp [hold]
    · simp [hnew]

/-- A get sends a request. -/
theorem Ok.request (h : p.Ok size) (hold : (p.task i).target = none) (hfits : entry.Fits size)
    (hfree : entry.output ≠ emptyOutput →
      (∀ x, ¬ p.Fetches entry.output x) ∧ ¬ p.shared.Present size entry.output) :
    Ok size ⟨p.shared.request entry.output, Function.update p.task i (.fetching entry)⟩ where
  manifest := h.manifest
  phase := h.phase.mono rfl
  downloads output hempty := (h.downloads output hempty).mono rfl id
  gets := gets_update h (p.shared.later_request entry.output) hfits
  once output hempty := by
    have honce := h.once output hempty
    rcases eq_or_ne output entry.output with rfl | hne
    · obtain ⟨hnone, habsent⟩ := hfree hempty
      refine honce.begins hnone habsent (x := some i) ?_ ?_ (by simp [Session.request])
      · intro y hy
        rcases (fetches_update rfl).mp hy with ⟨rfl, -⟩ | ⟨-, hy⟩
        · exact .inr rfl
        · exact .inl hy
      · exact (fetches_update rfl).mpr (.inl ⟨rfl, rfl⟩)
    · have hrequests : (p.shared.request entry.output).requests output =
          p.shared.requests output := by
        simp [Session.request, hne]
      show Once _ _ ((p.shared.request entry.output).requests output)
      rw [hrequests]
      refine honce.congr (fetches_update_of_ne rfl ?_ ?_) Iff.rfl
      · simp [hold]
      · simpa [Get.target] using hne.symm

/-- A get publishes what it has fetched. -/
theorem Ok.publish (h : p.Ok size) (hold : p.task i = .fetching entry) :
    Ok size ⟨p.shared.publish entry.output (size entry.output),
      Function.update p.task i .idle⟩ := by
  have hfetches : p.Fetches entry.output (some i) := by
    rw [Fetches, hold]
    rfl
  have hlater : p.shared.Later size (p.shared.publish entry.output (size entry.output)) := by
    refine .of_sameAt (fun _ => Session.sameAt_publish) fun hempty => Session.laterAt_publish ?_
    rw [((h.once _ hempty).fetching _ hfetches).2]
    exact Nat.one_pos
  refine ⟨h.manifest, h.phase.mono rfl, fun output hempty =>
    (h.downloads output hempty).mono rfl (hlater output hempty).present,
    gets_update h hlater trivial, fun output hempty => ?_⟩
  have honce := h.once output hempty
  rcases eq_or_ne output entry.output with rfl | hne
  · refine honce.ends (x := some i) ?_ hfetches Session.present_publish
    intro y hy
    rcases (fetches_update rfl).mp hy with ⟨-, habsurd⟩ | ⟨hne, hy⟩
    · cases habsurd
    · exact ⟨hy, hne⟩
  · refine honce.congr (fetches_update_of_ne rfl ?_ ?_) ?_
    · simpa [hold, Get.target] using hne.symm
    · simp [Get.target]
    · simp [Session.Present, Session.publish, hne]

theorem Ok.get_step {e : Get.Event} (h : p.Ok size) (hsucceeds : Succeeds (.get i e))
    (hapart : p.Apart (.get i e))
    (hstep : Pool.fire (fun _ e s g => Get.step size e s g) p i e = some p') : p'.Ok size := by
  obtain ⟨⟨s', g'⟩, hget, rfl⟩ := Option.map_eq_some_iff.mp hstep
  have hget : Get.step size e p.shared (p.task i) = some (s', g') := hget
  have hok := h.gets i
  dsimp only
  cases htask : p.task i with
  | idle =>
    rw [htask] at hget
    cases e with
    | start action =>
      obtain ⟨entry, hentry, heq⟩ := Option.map_eq_some_iff.mp hget
      cases heq
      exact h.move (by simp [htask, Get.target]) (h.manifest action entry hentry) rfl
    | run => cases hget
    | fail => cases hget
  | test entry =>
    rw [htask] at hget hok
    cases e with
    | run =>
      cases hget
      refine h.move (by simp [htask, Get.target]) ?_ ?_
      · split
        · trivial
        · rename_i habsent
          -- Not there now: if it is there later, a request has brought it.
          refine ⟨hok, fun hempty hpresent => ?_⟩
          exact absurd ((fileHasSize_iff_present hok hempty).mpr hpresent) habsent
      · split
        · rfl
        · rfl
    | start action => cases hget
    | fail => cases hget
  | lookup entry =>
    rw [htask] at hget hok
    cases e with
    | run =>
      rw [Get.step] at hget
      split at hget
      · rename_i hmark
        cases hget
        exact h.move (by simp [htask, Get.target]) ⟨hok.1, fun _ => .inl hmark⟩ rfl
      · rename_i hmark
        cases hget
        have hmark : p.shared.inflight entry.output = false := by simpa using hmark
        refine h.request (by simp [htask, Get.target]) hok.1 fun hempty => ?_
        obtain ⟨habsent, hnone⟩ := hapart entry.output entry.size
          (by simp [sends, htask, hmark]) hempty
        exact h.free hok.1 hmark hempty habsent hnone
    | start action => cases hget
    | fail => cases hget
  | wait entry =>
    rw [htask] at hget hok
    cases e with
    | run =>
      rw [Get.step] at hget
      split at hget
      · cases hget
      · rename_i hmark
        cases hget
        refine h.move (by simp [htask, Get.target]) ⟨hok.1, fun hempty => ?_⟩ rfl
        -- The mark has gone, so the object has come.
        exact (hok.2 hempty).resolve_left hmark
    | start action => cases hget
    | fail => cases hget
  | retest entry =>
    rw [htask] at hget hok
    cases e with
    | run =>
      rw [Get.step] at hget
      split at hget
      · cases hget
        exact h.move (by simp [htask, Get.target]) trivial rfl
      · rename_i habsent
        cases hget
        refine h.request (by simp [htask, Get.target]) hok.1 fun hempty => ?_
        -- After the wait the object is there: this request is never sent.
        exact absurd ((fileHasSize_iff_present hok.1 hempty).mpr (hok.2 hempty)) habsent
    | start action => cases hget
    | fail => cases hget
  | fetching entry =>
    rw [htask] at hget
    cases e with
    | run =>
      cases hget
      exact h.publish htask
    | fail => exact absurd hsucceeds id
    | start action => cases hget

end Build

/-! ## The steps of the prefetch task -/

namespace Build

variable {ι : Type} {size : Bytes → UInt64} {p : Build ι} {s s' : Session} {output : Bytes}

/-- What a step has to show of the object it is about. -/
structure At (size : Bytes → UInt64) (p : Build ι) (s : Session) (output : Bytes) : Prop where
  download : (s.downloads output).Ok size s output
  later : p.shared.LaterAt size s output
  once : Once (Fetches { p with shared := s } output) (s.Present size output) (s.requests output)

theorem fetches_shared
    (h : (∃ expected, s.downloads output = .fetching expected) ↔
      ∃ expected, p.shared.downloads output = .fetching expected) (x : Option ι) :
    Fetches { p with shared := s } output x ↔ p.Fetches output x := by
  cases x with
  | none => exact h
  | some i => exact Iff.rfl

theorem Ok.sameAt (h : p.Ok size) (hempty : output ≠ emptyOutput)
    (hsame : p.shared.SameAt s output) : At size p s output where
  download := by
    rw [hsame.downloads]
    exact (h.downloads output hempty).mono hsame.inflight hsame.present_iff.mpr
  later := hsame.later
  once := by
    rw [hsame.requests]
    refine (h.once output hempty).congr (fetches_shared ?_) hsame.present_iff
    rw [hsame.downloads]

/-- A step that is about one object, or about none. -/
theorem Ok.update (h : p.Ok size) (output : Bytes) (hmanifest : s.manifest = p.shared.manifest)
    (hphase : s.phase.Ok size s)
    (hother : ∀ output', output' ≠ output → p.shared.SameAt s output')
    (hat : output ≠ emptyOutput → At size p s output) : Ok size { p with shared := s } := by
  have hall : ∀ output', output' ≠ emptyOutput → At size p s output' := by
    intro output' hempty
    rcases eq_or_ne output' output with rfl | hne
    · exact hat hempty
    · exact h.sameAt hempty (hother output' hne)
  have hlater : p.shared.Later size s := fun output' hempty => (hall output' hempty).later
  refine ⟨?_, hphase, fun output' hempty => (hall output' hempty).download,
    fun i => hlater.get_ok (h.gets i), fun output' hempty => (hall output' hempty).once⟩
  intro action entry hentry
  refine h.manifest action entry ?_
  rw [Session.manifestEntry, ← hmanifest]
  exact hentry

/-- A download moves on from one step to another, and the mark and the file stay. -/
theorem Ok.setDownload {download : Download} (h : p.Ok size) (permits : Nat)
    (hphase : p.shared.phase = .downloading)
    (hold : ∀ expected, p.shared.downloads output ≠ .fetching expected)
    (hnew : ∀ expected, download ≠ .fetching expected)
    (hok : output ≠ emptyOutput → download.Ok size p.shared output) :
    Ok size { p with shared := { p.shared.setDownload output download with permits } } := by
  refine h.update output rfl (Phase.ok_downloading hphase) ?_ fun hempty => ?_
  · intro output' hne
    exact ⟨rfl, rfl, by simp [Session.setDownload, hne], rfl⟩
  · have hdownload : { p.shared.setDownload output download with permits }.downloads output =
        download := by
      simp [Session.setDownload]
    refine ⟨?_, ⟨id, Nat.le_refl _, .inl, .inl⟩, ?_⟩
    · rw [hdownload]
      exact (hok hempty).mono rfl id
    · refine (h.once output hempty).congr (fetches_shared ?_) Iff.rfl
      rw [hdownload]
      simp [hold, hnew]

theorem Ok.recheck {expected : UInt64} (h : p.Ok size)
    (hphase : p.shared.phase = .downloading)
    (hold : p.shared.downloads output = .recheck expected)
    (habsent : p.shared.fileHasSize output expected = false)
    (hnone : output ≠ emptyOutput → ∀ j, (p.task j).target ≠ some output) :
    Ok size { p with
      shared := (p.shared.request output).setDownload output (.fetching expected) } := by
  refine h.update output rfl (Phase.ok_downloading hphase) ?_ fun hempty => ?_
  · intro output' hne
    exact ⟨rfl, rfl, by simp [Session.setDownload, Session.request, hne],
      by simp [Session.setDownload, Session.request, hne]⟩
  · have hok := h.downloads output hempty
    rw [hold] at hok
    have hdownload : ((p.shared.request output).setDownload output (.fetching expected)).downloads
        output = .fetching expected := by
      simp [Session.setDownload]
    refine ⟨?_, ⟨id, ?_, .inl, .inl⟩, ?_⟩
    · rw [hdownload]
      exact ⟨hok.1, hok.2⟩
    · simp [Session.setDownload, Session.request]
    · -- Nobody fetches it and it is not there: this is the first request.
      refine (h.once output hempty).begins (x := none) ?_ ?_ ?_ ⟨expected, hdownload⟩
        (by simp [Session.setDownload, Session.request])
      · intro x hx
        cases x with
        | some j => exact hnone hempty j hx
        | none =>
          obtain ⟨expected', hfetching⟩ := hx
          exact absurd (hold.symm.trans hfetching) (by simp)
      · intro hpresent
        rw [Session.fileHasSize, hok.1, decide_eq_false_iff_not] at habsent
        exact habsent hpresent
      · intro y hy
        cases y with
        | some j => exact .inl hy
        | none => exact .inr rfl

theorem Ok.finish (h : p.Ok size) (hphase : p.shared.phase = .downloading)
    (hold : p.shared.downloads output = .fetching (size output)) :
    Ok size { p with
      shared := (p.shared.publish output (size output)).setDownload output .dropPermit } := by
  have hfetches : p.Fetches output none := ⟨size output, hold⟩
  refine h.update output rfl (Phase.ok_downloading hphase) ?_ fun hempty => ?_
  · intro output' hne
    exact ⟨by simp [Session.setDownload, Session.publish, hne], rfl,
      by simp [Session.setDownload, Session.publish, hne], rfl⟩
  · have hok := h.downloads output hempty
    rw [hold] at hok
    have honce := h.once output hempty
    have hdownload : ((p.shared.publish output (size output)).setDownload output
        .dropPermit).downloads output = .dropPermit := by
      simp [Session.setDownload]
    have hpresent : Session.Present size
        ((p.shared.publish output (size output)).setDownload output .dropPermit) output :=
      Session.present_publish
    refine ⟨?_, ⟨fun _ => hpresent, Nat.le_refl _, .inl, fun _ => .inr ?_⟩, ?_⟩
    · rw [hdownload]
      exact ⟨hok.2, hpresent⟩
    · show 0 < p.shared.requests output
      rw [(honce.fetching _ hfetches).2]
      exact Nat.one_pos
    · refine honce.ends (x := none) ?_ hfetches hpresent
      intro y hy
      cases y with
      | some j => exact ⟨hy, by simp⟩
      | none =>
        obtain ⟨expected, hfetching⟩ := hy
        exact absurd (hdownload.symm.trans hfetching) (by simp)

/-- The mark goes, and the object is there. -/
theorem Ok.dropMarker (h : p.Ok size) (hphase : p.shared.phase = .downloading)
    (hold : p.shared.downloads output = .dropMarker) :
    Ok size { p with shared := { p.shared.setDownload output .ended with
      inflight := Function.update p.shared.inflight output false } } := by
  refine h.update output rfl (Phase.ok_downloading hphase) ?_ fun hempty => ?_
  · intro output' hne
    exact ⟨rfl, by simp [hne], by simp [Session.setDownload, hne], rfl⟩
  · have hok := h.downloads output hempty
    rw [hold] at hok
    have hdownload : (p.shared.setDownload output .ended).downloads output = .ended := by
      simp [Session.setDownload]
    refine ⟨?_, ⟨id, Nat.le_refl _, fun _ => .inr hok.2, .inl⟩, ?_⟩
    · show ((p.shared.setDownload output .ended).downloads output).Ok size _ output
      rw [hdownload]
      trivial
    · refine (h.once output hempty).congr (fetches_shared ?_) Iff.rfl
      show (∃ expected,
        (p.shared.setDownload output .ended).downloads output = .fetching expected) ↔ _
      rw [hdownload, hold]
      simp

/-- A step of a download. -/
theorem Ok.download_step {e : Session.Event} (h : p.Ok size)
    (hphase : p.shared.phase = .downloading) (hsucceeds : Succeeds (.prefetch e : Action ι))
    (hapart : p.Apart (.prefetch e)) (hstep : p.shared.downloadStep size e = some s') :
    Ok size { p with shared := s' } := by
  have hok : ∀ output, output ≠ emptyOutput →
      (p.shared.downloads output).Ok size p.shared output := h.downloads
  cases e with
  | acquire output =>
    rw [Session.downloadStep] at hstep
    split at hstep
    · rename_i expected hold
      split at hstep
      · cases hstep
        refine h.setDownload _ hphase (by simp [hold]) (by simp) fun hempty => ?_
        have hdownload := hok output hempty
        rw [hold] at hdownload
        exact hdownload
      · cases hstep
    · cases hstep
  | recheck output =>
    rw [Session.downloadStep] at hstep
    split at hstep
    · rename_i expected hold
      split at hstep
      · rename_i hpresent
        cases hstep
        refine h.setDownload p.shared.permits hphase (by simp [hold]) (by simp)
          fun hempty => ?_
        have hdownload := hok output hempty
        rw [hold] at hdownload
        rw [Session.fileHasSize, hdownload.1, decide_eq_true_iff] at hpresent
        exact ⟨hdownload.2, hpresent⟩
      · rename_i habsent
        cases hstep
        have habsent : p.shared.fileHasSize output expected = false := by simpa using habsent
        refine h.recheck hphase hold habsent fun hempty => ?_
        exact (hapart output expected (by simp [sends, hold, habsent]) hempty).2
    · cases hstep
  | finish output =>
    rw [Session.downloadStep] at hstep
    split at hstep
    · rename_i expected hold
      split at hstep
      · rename_i hexpected
        cases hstep
        subst hexpected
        exact h.finish hphase hold
      · rename_i hexpected
        cases hstep
        -- The manifest is right about the sizes of all but the empty object.
        refine h.update output rfl (Phase.ok_downloading hphase) ?_ fun hempty => ?_
        · intro output' hne
          exact ⟨rfl, rfl, by simp [Session.setDownload, hne], rfl⟩
        · have hdownload := hok output hempty
          rw [hold] at hdownload
          exact absurd hdownload.1 hexpected
    · cases hstep
  | fail output => exact absurd hsucceeds id
  | dropPermit output =>
    rw [Session.downloadStep] at hstep
    split at hstep
    · rename_i hold
      cases hstep
      refine h.setDownload _ hphase (by simp [hold]) (by simp) fun hempty => ?_
      have hdownload := hok output hempty
      rw [hold] at hdownload
      exact hdownload
    · cases hstep
  | dropMarker output =>
    rw [Session.downloadStep] at hstep
    split at hstep
    · rename_i hold
      cases hstep
      exact h.dropMarker hphase hold
    · cases hstep
  | _ => cases hstep

theorem Ok.setPhase (h : p.Ok size) (phase : Phase) (hok : phase.Ok size { p.shared with phase }) :
    Ok size { p with shared := { p.shared with phase } } :=
  h.update emptyOutput rfl hok (fun _ _ => ⟨rfl, rfl, rfl, rfl⟩) fun hempty => absurd rfl hempty

theorem Ok.scan {entry : ManifestEntry} {written : Bool} {rest wanted : List ManifestEntry}
    {seen : List Bytes} (h : p.Ok size)
    (hphase : p.shared.phase = .scanning (entry :: rest) seen wanted) :
    Ok size { p with shared := p.shared.scan entry written rest seen wanted } := by
  obtain ⟨hrest, hwanted, hnodup, hseen, hnone⟩ : (Phase.scanning (entry :: rest) seen wanted).Ok
      size p.shared := hphase ▸ h.phase
  have hrest' : ∀ e ∈ rest, e.Fits size := fun e he => hrest e (List.mem_cons_of_mem _ he)
  have hseen' : ∀ e ∈ wanted, e.output ∈ entry.output :: seen :=
    fun e he => List.mem_cons_of_mem _ (hseen e he)
  rw [Session.scan]
  split
  · exact h.setPhase _ ⟨hrest', hwanted, hnodup, hseen, hnone⟩
  · rename_i hnew
    dsimp only
    split
    · split
      · -- The synthesized file is the empty object's, of which nothing is claimed.
        refine h.update emptyOutput rfl ⟨hrest', hwanted, hnodup, hseen', hnone⟩ ?_
          fun hempty => absurd rfl hempty
        intro output' hne
        exact ⟨by simp [Session.publish, hne], rfl, rfl, rfl⟩
      · exact h.setPhase _ ⟨hrest', hwanted, hnodup, hseen', hnone⟩
    · split
      · exact h.setPhase _ ⟨hrest', hwanted, hnodup, hseen', hnone⟩
      · refine h.setPhase _ ⟨hrest', ?_, ?_, ?_, hnone⟩
        · intro e he
          rcases List.mem_append.mp he with he | he
          · exact hwanted e he
          · obtain rfl := List.mem_singleton.mp he
            exact hrest e List.mem_cons_self
        · -- What is wanted has been seen, and this output has not.
          rw [List.map_append, List.map_singleton, List.nodup_append]
          refine ⟨hnodup, by simp, ?_⟩
          intro output houtput output' houtput' heq
          obtain rfl := List.mem_singleton.mp houtput'
          subst heq
          obtain ⟨e, he, heq⟩ := List.mem_map.mp houtput
          exact hnew (heq ▸ hseen e he)
        · intro e he
          rcases List.mem_append.mp he with he | he
          · exact hseen' e he
          · obtain rfl := List.mem_singleton.mp he
            exact List.mem_cons_self

theorem Ok.mark {entry : ManifestEntry} {rest : List ManifestEntry} (h : p.Ok size)
    (hphase : p.shared.phase = .marking (entry :: rest)) :
    Ok size { p with shared := { p.shared.beginDownload entry with phase := .marking rest } } := by
  obtain ⟨hrest, hnodup, hnone⟩ : (Phase.marking (entry :: rest)).Ok size p.shared :=
    hphase ▸ h.phase
  obtain ⟨hnew, hnodup⟩ := List.nodup_cons.mp hnodup
  -- The outputs that are wanted are distinct, so this one was not marked before.
  have hold : p.shared.downloads entry.output = .none := hnone entry List.mem_cons_self
  refine h.update entry.output rfl ⟨?_, hnodup, ?_⟩ ?_ fun hempty => ?_
  · exact fun e he => hrest e (List.mem_cons_of_mem _ he)
  · intro e he
    have hne : e.output ≠ entry.output := by
      intro heq
      exact hnew (List.mem_map.mpr ⟨e, he, heq⟩)
    simpa [Session.beginDownload, hne] using hnone e (List.mem_cons_of_mem _ he)
  · intro output' hne
    exact ⟨rfl, by simp [Session.beginDownload, hne], by simp [Session.beginDownload, hne], rfl⟩
  · have hdownload : (p.shared.beginDownload entry).downloads entry.output =
        .queued entry.size := by
      simp [Session.beginDownload]
    have hinflight : (p.shared.beginDownload entry).inflight entry.output = true := by
      simp [Session.beginDownload]
    refine ⟨?_, ⟨id, Nat.le_refl _, fun _ => .inl hinflight, .inl⟩, ?_⟩
    · show ((p.shared.beginDownload entry).downloads entry.output).Ok size _ entry.output
      rw [hdownload]
      exact ⟨hrest entry List.mem_cons_self hempty, hinflight⟩
    · refine (h.once entry.output hempty).congr (fetches_shared ?_) Iff.rfl
      show (∃ expected, (p.shared.beginDownload entry).downloads entry.output =
        .fetching expected) ↔ _
      rw [hdownload, hold]
      simp

theorem Ok.prefetch_step {entries : List (Bytes × ManifestEntry)} {concurrency : Nat}
    {e : Session.Event} (hentries : Truthful size entries) (h : p.Ok size)
    (hsucceeds : Succeeds (.prefetch e : Action ι)) (hapart : p.Apart (.prefetch e))
    (hstep : p.shared.step size entries concurrency e = some s') :
    Ok size { p with shared := s' } := by
  unfold Session.step at hstep
  split at hstep
  · rename_i hphase
    split at hstep
    · cases hstep
      have hnone : ∀ output, p.shared.downloads output = .none := by
        have hok := h.phase
        rw [hphase] at hok
        exact hok
      have hfits : ∀ pair ∈ entries, pair.2.Fits size := fun pair hpair => hentries pair hpair
      have hok := h.setPhase (.scanning (entries.map (·.2)) [] []) (by
        refine ⟨?_, by simp, List.nodup_nil, by simp, hnone⟩
        intro entry hentry
        obtain ⟨pair, hpair, rfl⟩ := List.mem_map.mp hentry
        exact hfits pair hpair)
      refine ⟨?_, hok.phase, hok.downloads, hok.gets, hok.once⟩
      intro action entry hentry
      obtain ⟨pair, hfind, heq⟩ := Option.bind_eq_some_iff.mp hentry
      cases heq
      exact hfits pair (List.mem_of_find?_eq_some hfind)
    · cases hstep
  · rename_i hphase
    split at hstep
    · cases hstep
      exact h.scan hphase
    · cases hstep
  · rename_i seen wanted hphase
    split at hstep
    · cases hstep
      obtain ⟨-, hwanted, hnodup, -, hnone⟩ : (Phase.scanning [] seen wanted).Ok size p.shared :=
        hphase ▸ h.phase
      refine h.setPhase _ ?_
      split
      · trivial
      · exact ⟨hwanted, hnodup, fun entry _ => hnone entry.output⟩
    · cases hstep
  · rename_i hphase
    split at hstep
    · cases hstep
      exact h.mark hphase
    · cases hstep
  · split at hstep
    · cases hstep
      exact h.setPhase .downloading trivial
    · cases hstep
  · rename_i hphase
    exact h.download_step hphase hsucceeds hapart hstep
  · cases hstep

/-! ## At most one download -/

variable {a : Action ι}

/-- What a step sends, it sends for a get that finds no mark or a download that finds no file. -/
theorem sends_cases {expected : UInt64} (h : p.sends a = some (output, expected)) :
    (∃ i entry, a = .get i .run ∧ p.task i = .lookup entry ∧
      p.shared.inflight entry.output = false ∧ output = entry.output ∧ expected = entry.size) ∨
    (a = .prefetch (.recheck output) ∧ p.shared.downloads output = .recheck expected ∧
      p.shared.fileHasSize output expected = false) := by
  unfold sends at h
  split at h
  · rename_i i
    split at h
    · rename_i entry htask
      split at h
      · cases h
      · rename_i hmark
        cases h
        exact .inl ⟨i, entry, rfl, htask, by simpa using hmark, rfl, rfl⟩
    · cases h
  · split at h
    · rename_i hdownload
      split at h
      · cases h
      · rename_i habsent
        cases h
        exact .inr ⟨rfl, hdownload, by simpa using habsent⟩
    · cases h
  · cases h

/-- Whoever does not keep apart sends for an object that has been sent for. -/
theorem Ok.requests_eq_one (h : p.Ok size) (hnot : ¬ p.Apart a) :
    ∃ output expected, p.sends a = some (output, expected) ∧ output ≠ emptyOutput ∧
      p.shared.requests output = 1 := by
  rw [Apart] at hnot
  push Not at hnot
  obtain ⟨output, expected, hsends, hempty, hbusy⟩ := hnot
  refine ⟨output, expected, hsends, hempty, ?_⟩
  have honce := h.once output hempty
  cases hsize : p.shared.fileHasSize output expected with
  | false =>
    obtain ⟨j, htarget⟩ := hbusy hsize
    exact honce.eq_one ⟨some j, htarget⟩
  | true =>
    rcases sends_cases hsends with ⟨i, entry, rfl, htask, -, rfl, rfl⟩ | ⟨-, -, habsent⟩
    · have hok := h.gets i
      rw [htask] at hok
      have hpresent := (fileHasSize_iff_present hok.1 hempty).mp hsize
      exact Nat.le_antisymm honce.once (hok.2 hempty hpresent)
    · exact absurd (habsent.symm.trans hsize) (by decide)

variable [DecidableEq ι] {entries : List (Bytes × ManifestEntry)} {concurrency : Nat}
  {p' : Build ι}

theorem Ok.step (hentries : Truthful size entries) (h : p.Ok size) (hsucceeds : Succeeds a)
    (hapart : p.Apart a) (hstep : p.fire size entries concurrency a = some p') : p'.Ok size := by
  cases a with
  | get i e => exact h.get_step hsucceeds hapart hstep
  | prefetch e =>
    obtain ⟨s', hs', rfl⟩ := Option.map_eq_some_iff.mp hstep
    exact h.prefetch_step hentries hsucceeds hapart hs'

theorem reach_ok (hentries : Truthful size entries)
    (h : (system size entries concurrency).Reach (fun p a => Succeeds a ∧ p.Apart a) p) :
    p.Ok size := by
  refine h.invariant (I := Ok size) ?_ ?_
  · rintro p₀ ⟨files, rfl⟩
    refine ⟨?_, fun _ => rfl, fun _ _ => trivial, fun _ => trivial, fun output hempty => ?_⟩
    · intro action entry hentry
      cases hentry
    · have hnone : ∀ x : Option ι,
          ¬ Fetches ⟨.new files concurrency, fun _ => .idle⟩ output x := by
        intro x hx
        cases x with
        | none =>
          obtain ⟨expected, hfetching⟩ := hx
          cases hfetching
        | some i => cases hx
      exact ⟨fun x _ hx => absurd hx (hnone x), fun x hx => absurd hx (hnone x), fun _ _ => rfl,
        Nat.zero_le 1⟩
  · rintro p a p' hp ⟨hsucceeds, hapart⟩ hstep
    exact hp.step hentries hsucceeds hapart hstep

/-- What a step sends is counted. -/
theorem requests_of_sends {expected : UInt64} (h : p.sends a = some (output, expected))
    (hstep : p.fire size entries concurrency a = some p') :
    p'.shared.requests output = p.shared.requests output + 1 := by
  rcases sends_cases h with ⟨i, entry, rfl, htask, hmark, rfl, rfl⟩ | ⟨rfl, hdownload, habsent⟩
  · obtain ⟨⟨s', g'⟩, hget, rfl⟩ := Option.map_eq_some_iff.mp hstep
    have hget : Get.step size .run p.shared (p.task i) = some (s', g') := hget
    rw [htask, Get.step, hmark] at hget
    cases hget
    simp [Session.request]
  · obtain ⟨s', hs', rfl⟩ := Option.map_eq_some_iff.mp hstep
    unfold Session.step at hs'
    split at hs'
    -- Downloads are stepped in the last phase only.
    iterate 5
      split at hs'
      · rename_i heq
        cases heq
      · cases hs'
    · rw [Session.downloadStep, hdownload] at hs'
      dsimp only at hs'
      rw [habsent] at hs'
      cases hs'
      simp [Session.setDownload, Session.request]
    · cases hs'

/-! ### A wrong size -/

/-- One get and no other. -/
def alone (i : ι) (s : Session) (g : Get) : Build ι := ⟨s, Function.update (fun _ => .idle) i g⟩

section

variable (size : Bytes → UInt64) (entries : List (Bytes × ManifestEntry)) (concurrency : Nat)

/-- The states of the runs in which every download succeeds and the requests keep apart. -/
def Reached (p : Build ι) : Prop :=
  (system size entries concurrency).Reach (fun p a => Succeeds a ∧ p.Apart a) p

end

theorem Reached.get {i : ι} {g g' : Get} (h : Reached size entries concurrency (alone i s g))
    {e : Get.Event} (hsucceeds : Succeeds (.get i e))
    (habsent : ∀ entry, g = .lookup entry → s.fileHasSize entry.output entry.size = false)
    (hget : Get.step size e s g = some (s', g')) :
    Reached size entries concurrency (alone i s' g') := by
  have hself : (alone i s g).task i = g := by simp [alone]
  refine System.Reach.tail h ⟨hsucceeds, ?_⟩ ?_ (a := .get i e)
  · intro output expected hsends _
    rcases sends_cases hsends with ⟨j, entry, heq, htask, -, rfl, rfl⟩ | ⟨heq, -, -⟩
    · cases heq
      rw [hself] at htask
      refine ⟨habsent entry htask, fun j => ?_⟩
      rcases eq_or_ne j i with rfl | hne
      · rw [hself, htask]
        simp [Get.target]
      · simp [alone, hne, Get.target]
    · cases heq
  · show Pool.fire (fun _ e s g => Get.step size e s g) (alone i s g) i e = _
    have hget : Get.step size e (alone i s g).shared ((alone i s g).task i) = some (s', g') := by
      rw [hself]
      exact hget
    rw [Pool.fire, hget, Option.map_some, alone, alone, Function.update_idem]

/-- A get that finds no file and no mark downloads the object. -/
theorem Reached.download {i : ι} {action : Bytes} {entry : ManifestEntry}
    (h : Reached size entries concurrency (alone i s .idle))
    (hentry : s.manifestEntry action = some entry) (hmark : s.inflight entry.output = false)
    (habsent : s.fileHasSize entry.output entry.size = false) :
    Reached size entries concurrency
      (alone i ((s.request entry.output).publish entry.output (size entry.output)) .idle) := by
  have htest : Reached size entries concurrency (alone i s (.test entry)) := by
    refine h.get (e := .start action) trivial (fun _ heq => by cases heq) ?_
    rw [Get.step, hentry, Option.map_some]
  have hlookup : Reached size entries concurrency (alone i s (.lookup entry)) := by
    refine htest.get (e := .run) trivial (fun _ heq => by cases heq) ?_
    simp [Get.step, habsent]
  have hfetching : Reached size entries concurrency
      (alone i (s.request entry.output) (.fetching entry)) := by
    refine hlookup.get (e := .run) trivial ?_ ?_
    · intro entry' heq
      cases heq
      exact habsent
    · simp [Get.step, hmark]
  exact hfetching.get (e := .run) trivial (fun _ heq => by cases heq) rfl

/-- An object whose entry has the wrong size is downloaded by every get. -/
theorem download_again (i : ι) (concurrency : Nat) {action : Bytes} {entry : ManifestEntry}
    (hentry : entries.find? (·.1 = action) = some (action, entry))
    (hwrong : entry.size ≠ size entry.output) :
    ∃ p : Build ι, Reached size entries concurrency p ∧
      p.shared.requests entry.output = 2 := by
  let s₀ : Session := .new (fun _ => none) concurrency
  let s₁ : Session :=
    { s₀ with manifest := some entries, phase := .scanning (entries.map (·.2)) [] [] }
  have hinit : Reached size entries concurrency (alone i s₀ .idle) := by
    refine ⟨alone i s₀ .idle, ⟨fun _ => none, ?_⟩, Relation.ReflTransGen.refl⟩
    simp [alone, s₀]
  -- The manifest is there, and no download is marked yet.
  have hinstall : Reached size entries concurrency (alone i s₁ .idle) := by
    refine System.Reach.tail hinit ⟨trivial, ?_⟩ (a := .prefetch .install) rfl
    intro output expected hsends
    cases hsends
  have hmanifest : s₁.manifestEntry action = some entry := by
    show (entries.find? (·.1 = action)).bind (fun found => some found.2) = some entry
    rw [hentry, Option.bind_some]
  have hfirst := hinstall.download hmanifest rfl rfl
  have hsecond := hfirst.download hmanifest rfl (by
    simpa [Session.fileHasSize, Session.publish] using hwrong.symm)
  exact ⟨_, hsecond, by simp [alone, Session.publish, Session.request, s₁, s₀, Session.new]⟩

/-- As long as every download succeeds and whoever sends a request does so while the object is not
there and nobody fetches it: every object but the empty one is downloaded at most once if and only
if the manifest is right about the sizes; and then the first step that does not keep to this is a
second download. -/
theorem downloaded_once [Nonempty ι] (size : Bytes → UInt64)
    (entries : List (Bytes × ManifestEntry)) (hactions : (entries.map (·.1)).Nodup)
    (concurrency : Nat) :
    ((∀ p : Build ι, (system size entries concurrency).Reach
        (fun p a => Succeeds a ∧ p.Apart a) p →
      ∀ output, output ≠ emptyOutput → p.shared.requests output ≤ 1) ↔ Truthful size entries) ∧
    (Truthful size entries → ∀ p : Build ι, (system size entries concurrency).Reach
        (fun p a => Succeeds a ∧ p.Apart a) p →
      ∀ a p', ¬ p.Apart a → p.fire size entries concurrency a = some p' →
        ∃ output, output ≠ emptyOutput ∧ p'.shared.requests output = 2) := by
  refine ⟨⟨?_, ?_⟩, ?_⟩
  · intro hall pair hpair hempty
    by_contra hwrong
    obtain ⟨i⟩ := ‹Nonempty ι›
    have hentry : entries.find? (·.1 = pair.1) = some (pair.1, pair.2) := by
      cases hfind : entries.find? (·.1 = pair.1) with
      | none => exact absurd (decide_eq_true rfl) (List.find?_eq_none.mp hfind pair hpair)
      | some found =>
        have hkey : found.1 = pair.1 := by simpa using List.find?_some hfind
        rw [List.inj_on_of_nodup_map hactions (List.mem_of_find?_eq_some hfind) hpair hkey]
    obtain ⟨p, hreach, htwo⟩ := download_again i concurrency hentry hwrong
    have hle := hall p hreach pair.2.output hempty
    omega
  · intro hentries p h output hempty
    exact ((reach_ok hentries h).once output hempty).once
  · intro hentries p h a p' hnot hstep
    obtain ⟨output, expected, hsends, hempty, hone⟩ := (reach_ok hentries h).requests_eq_one hnot
    refine ⟨output, hempty, ?_⟩
    rw [requests_of_sends hsends hstep, hone]

/-! ### Schedules that keep apart -/

/-- The object whose download ends in a step. -/
def ends (p : Build ι) : Action ι → Option Bytes
  | .get i .run => (p.task i).target
  | .prefetch (.finish output) => some output
  | _ => none

/-- No download of an object ends while a get is between its file test and its look at the mark, and
while a get fetches it no other request for it is sent. -/
structure Calm (p : Build ι) (a : Action ι) : Prop where
  ends : ∀ i entry, p.task i = .lookup entry → p.ends a ≠ some entry.output
  sends : ∀ output expected, p.sends a = some (output, expected) →
    ∀ j, (p.task j).target ≠ some output

theorem files_publish {output' : Bytes} {expected : UInt64} (hne : output ≠ output') :
    (s.publish output' expected).files output = s.files output :=
  Function.update_of_ne hne ..

theorem files_of_get {e : Get.Event} {g g' : Get} (hends : ∀ entry, g = .fetching entry →
      e = .run → output ≠ entry.output)
    (hget : Get.step size e s g = some (s', g')) : s'.files output = s.files output := by
  revert hget hends
  fun_cases Get.step size e s g <;> intro hends hget
  case case1 action =>
    obtain ⟨entry, -, hentry⟩ := Option.map_eq_some_iff.mp hget
    cases hentry
    rfl
  case case14 entry =>
    cases hget
    exact files_publish (hends entry rfl rfl)
  all_goals cases hget <;> rfl

theorem files_scan (hempty : output ≠ emptyOutput) (entry : ManifestEntry) (written : Bool)
    (rest : List ManifestEntry) (seen : List Bytes) (wanted : List ManifestEntry) :
    (s.scan entry written rest seen wanted).files output = s.files output := by
  unfold Session.scan
  split
  · rfl
  · dsimp only
    split
    · split
      · exact files_publish hempty
      · rfl
    · split <;> rfl

theorem files_download {e : Session.Event} (hends : e ≠ .finish output)
    (hstep : s.downloadStep size e = some s') : s'.files output = s.files output := by
  revert hends hstep
  fun_cases Session.downloadStep s size e <;> intro hends hstep
  case case7 output' hdownload =>
    cases hstep
    exact files_publish fun heq => hends (congrArg _ heq.symm)
  all_goals cases hstep <;> rfl

theorem files_of_prefetch {e : Session.Event} (hempty : output ≠ emptyOutput)
    (hends : e ≠ .finish output) (hstep : s.step size entries concurrency e = some s') :
    s'.files output = s.files output := by
  revert hends hstep
  fun_cases Session.step s size entries concurrency e <;> intro hends hstep
  case case3 => exact Option.some.inj hstep ▸ files_scan hempty ..
  case case11 => exact files_download hends hstep
  all_goals cases hstep <;> rfl

/-- A file other than the empty one comes when its download ends. -/
theorem files_of_ends (hempty : output ≠ emptyOutput) (hends : p.ends a ≠ some output)
    (hstep : p.fire size entries concurrency a = some p') :
    p'.shared.files output = p.shared.files output := by
  cases a with
  | get i e =>
    obtain ⟨hown, -⟩ := Pool.fire_eq_some
      (show Pool.fire (fun _ e s g => Get.step size e s g) p i e = some p' from hstep)
    refine files_of_get ?_ hown
    rintro entry htask rfl rfl
    exact hends (by rw [ends, htask, Get.target])
  | prefetch e =>
    obtain ⟨s', hs', rfl⟩ := Option.map_eq_some_iff.mp hstep
    refine files_of_prefetch hempty ?_ hs'
    rintro rfl
    exact hends rfl

/-- A get looks for the mark when it has found no file. -/
theorem absent_of_get {e : Get.Event} {g : Get} {entry : ManifestEntry}
    (hget : Get.step size e s g = some (s', .lookup entry)) :
    s'.fileHasSize entry.output entry.size = false := by
  generalize hg' : Get.lookup entry = g' at hget
  revert hget
  fun_cases Get.step size e s g <;> intro hget
  case case1 action =>
    obtain ⟨entry', -, hentry⟩ := Option.map_eq_some_iff.mp hget
    cases hg'
    cases hentry
  case case3 entry' =>
    cases hget
    split at hg'
    · cases hg'
    · rename_i habsent
      cases hg'
      exact Bool.eq_false_iff.mpr habsent
  all_goals
    cases hg'
    cases hget

/-- What a get has not found at its test is not there when it looks for the mark. -/
def Tested (p : Build ι) : Prop :=
  ∀ i entry, p.task i = .lookup entry → entry.output ≠ emptyOutput →
    p.shared.fileHasSize entry.output entry.size = false

theorem Tested.step (h : Tested p) (hcalm : Calm p a)
    (hstep : p.fire size entries concurrency a = some p') : Tested p' := by
  have hkept : ∀ i entry, p.task i = .lookup entry → entry.output ≠ emptyOutput →
      p'.shared.fileHasSize entry.output entry.size = false := by
    intro i entry htask hempty
    rw [Session.fileHasSize, files_of_ends hempty (hcalm.ends i entry htask) hstep]
    exact h i entry htask hempty
  intro j entry htask hempty
  cases a with
  | prefetch e =>
    obtain ⟨s', -, rfl⟩ := Option.map_eq_some_iff.mp hstep
    exact hkept j entry htask hempty
  | get i e =>
    obtain ⟨hown, hothers⟩ := Pool.fire_eq_some
      (show Pool.fire (fun _ e s g => Get.step size e s g) p i e = some p' from hstep)
    by_cases hj : j = i
    · subst hj
      rw [htask] at hown
      exact absent_of_get hown
    · rw [hothers j hj] at htask
      exact hkept j entry htask hempty

omit [DecidableEq ι] in
theorem Tested.apart (h : Tested p) (hcalm : Calm p a) : p.Apart a := by
  intro output expected hsends hempty
  refine ⟨?_, hcalm.sends output expected hsends⟩
  rcases sends_cases hsends with ⟨i, entry, rfl, htask, -, rfl, rfl⟩ | ⟨-, -, habsent⟩
  · exact h i entry htask hempty
  · exact habsent

/-- On such a schedule every object but the empty one is downloaded at most once. -/
theorem downloaded_once_of_calm (hentries : Truthful size entries)
    (h : (system size entries concurrency).Reach (fun p a => Succeeds a ∧ p.Calm a) p)
    (hempty : output ≠ emptyOutput) : p.shared.requests output ≤ 1 := by
  have htested : ∀ {x : Build ι}, (system size entries concurrency).Reach
      (fun p a => Succeeds a ∧ p.Calm a) x → Tested x := fun hx => by
    refine hx.invariant ?_ fun _ _ _ hI hG hstep => hI.step hG.2 hstep
    rintro p₀ ⟨files, rfl⟩ i entry htask
    cases htask
  have hreach : (system size entries concurrency).Reach (fun p a => Succeeds a ∧ p.Apart a) p :=
    h.mono_of_reach fun x a hx hG => ⟨hG.1, (htested hx).apart hG.2⟩
  exact ((reach_ok hentries hreach).once output hempty).once

/-! ### One object and one get -/

/-- The output `00`. -/
def sampleOutput : Bytes := [48, 48]

def sampleEntries : List (Bytes × ManifestEntry) := [([97], ⟨sampleOutput, 1, 0⟩)]

def sampleSize (_ : Bytes) : UInt64 := 1

def sampleBuild : Build Unit := ⟨.new (fun _ => none) 1, fun _ => .idle⟩

def prefetches : List Session.Event → List (Action Unit) := List.map .prefetch

def gets : List Get.Event → List (Action Unit) := List.map (.get ())

theorem sampleEntries_truthful : Truthful sampleSize sampleEntries := by
  intro pair hpair _
  obtain rfl := List.mem_singleton.mp hpair
  rfl

/-- Whether a step keeps apart, where there is one get. -/
def keepsApart (p : Build Unit) (a : Action Unit) : Bool :=
  (p.sends a).all fun sent =>
    !p.shared.fileHasSize sent.1 sent.2 && (p.task ()).target ≠ some sent.1

theorem apart_of_keepsApart {p : Build Unit} {a : Action Unit} (h : keepsApart p a = true) :
    p.Apart a := by
  intro output expected hsends _
  rw [keepsApart, hsends] at h
  obtain ⟨habsent, hnone⟩ : p.shared.fileHasSize output expected = false ∧
      (p.task ()).target ≠ some output := by
    simpa using h
  exact ⟨habsent, fun _ => hnone⟩

/-- The get comes while the object is queued, and waits. -/
theorem get_waits :
    ∃ p : Build Unit, (system sampleSize sampleEntries 1).Reach
        (fun p a => Succeeds a ∧ p.Apart a) p ∧
      p.shared.fileHasSize sampleOutput 1 = true ∧ p.shared.requests sampleOutput = 1 ∧
      p.shared.requests sampleOutput ≤ 1 := by
  have hexec : (System.exec (fire sampleSize sampleEntries 1)
      (fun p a => decide (Succeeds a) && keepsApart p a) sampleBuild
      (prefetches [.install, .scan true, .scan true, .mark, .mark] ++
        gets [.start [97], .run, .run] ++
        prefetches [.acquire sampleOutput, .recheck sampleOutput, .finish sampleOutput,
          .dropPermit sampleOutput, .dropMarker sampleOutput] ++
        gets [.run, .run])).any
      (fun p => p.shared.fileHasSize sampleOutput 1 && p.shared.requests sampleOutput = 1) =
        true := by
    decide
  obtain ⟨p, hreach, hcheck⟩ := System.reach_of_exec
    (S := system sampleSize sampleEntries 1) (G := fun p a => Succeeds a ∧ p.Apart a)
    (fun _ _ _ h => h)
    (fun p a h => by
      obtain ⟨hsucceeds, hapart⟩ := (Bool.and_eq_true _ _).mp h
      exact ⟨of_decide_eq_true hsucceeds, apart_of_keepsApart hapart⟩)
    ⟨fun _ => none, rfl⟩ hexec
  obtain ⟨hpresent, hone⟩ := (Bool.and_eq_true _ _).mp hcheck
  exact ⟨p, hreach, hpresent, of_decide_eq_true hone,
    (downloaded_once sampleSize sampleEntries (by decide) 1).1.mpr sampleEntries_truthful p hreach
      sampleOutput (by decide)⟩

/-- The get comes after the manifest and before the mark; the download looks for the file before
the get has published it. -/
theorem get_before_mark :
    Truthful sampleSize sampleEntries ∧
      ¬ ∀ p : Build Unit, (system sampleSize sampleEntries 1).Reach (fun _ a => Succeeds a) p →
        ∀ output, output ≠ emptyOutput → p.shared.requests output ≤ 1 := by
  refine ⟨sampleEntries_truthful, fun hall => ?_⟩
  have hexec : (System.exec (fire sampleSize sampleEntries 1) (fun _ a => decide (Succeeds a))
      sampleBuild
      (prefetches [.install, .scan true] ++ gets [.start [97], .run, .run] ++
        prefetches [.scan true, .mark, .mark, .acquire sampleOutput, .recheck sampleOutput])).any
      (fun p => p.shared.requests sampleOutput = 2) = true := by
    decide
  obtain ⟨p, hreach, hcheck⟩ := System.reach_of_exec
    (S := system sampleSize sampleEntries 1) (G := fun _ a => Succeeds a)
    (fun _ _ _ h => h) (fun _ _ h => of_decide_eq_true h) ⟨fun _ => none, rfl⟩ hexec
  have htwo : p.shared.requests sampleOutput = 2 := of_decide_eq_true hcheck
  have hle := hall p hreach sampleOutput (by decide)
  omega

end Build

end Flywheel.Cacheprog
