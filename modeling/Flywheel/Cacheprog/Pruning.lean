import Flywheel.Cacheprog.Files

/-!
# Pruning among other sessions (`cacheprog/mod.rs`, `prune_stale_files` and `touch`)

A session that closes removes what it takes for stale from a directory that other sessions go
on using: abandoned temporary files after an hour, and objects after as long as the operator
says, or never. It reads the time of a file and then removes the name, and in between another
session can touch the file, write to it or put another one in its place.

- `prune_removes_stale`: what a session that nobody disturbs leaves.
- `used_file_stays`: how long a file that has been used is safe from every prune.
-/

set_option autoImplicit false

namespace Flywheel.Cacheprog

open Lib

/-! ## Files and their times -/

/-- What `metadata` says; times are in nanoseconds from the epoch. -/
structure Inode where
  isFile : Bool
  modified : Int
  deriving DecidableEq

/-- The names of a directory, and the clock. -/
structure Shelf where
  names : Bytes → Option Nat
  inodes : Nat → Inode
  next : Nat
  clock : Int

/-- `TEMPORARY_MAX_AGE`: an hour. -/
def temporaryMaxAge : Nat := 3600000000000

def maxAge (objectMaxAge : Option Nat) (name : Bytes) : Option Nat :=
  if isTemporary name then some temporaryMaxAge else objectMaxAge

/-- A regular file older than `maxAge`; one from the future has no age. -/
def Inode.stale (now : Int) (maxAge : Nat) (inode : Inode) : Bool :=
  inode.isFile && decide (inode.modified ≤ now) && decide ((maxAge : Int) < now - inode.modified)

namespace Shelf

variable (shelf : Shelf)

/-- The test in front of a removal; a name that is gone has no metadata. -/
def staleName (now : Int) (objectMaxAge : Option Nat) (name : Bytes) : Bool :=
  match maxAge objectMaxAge name with
  | some age => (shelf.names name).any fun inode => (shelf.inodes inode).stale now age
  | none => false

def unlink (name : Bytes) : Shelf := { shelf with names := Function.update shelf.names name none }

/-- `remove_file`, which leaves a directory alone. -/
def removeName (name : Bytes) : Shelf :=
  if (shelf.names name).any fun inode => (shelf.inodes inode).isFile then shelf.unlink name
  else shelf

/-- `File::create` of a temporary file. -/
def create (temporary : Bytes) : Shelf where
  names := Function.update shelf.names temporary (some shelf.next)
  inodes := Function.update shelf.inodes shelf.next ⟨true, shelf.clock⟩
  next := shelf.next + 1
  clock := shelf.clock

/-- A write, or `touch`. -/
def stamp (inode : Nat) (time : Int) : Shelf :=
  { shelf with
    inodes := Function.update shelf.inodes inode { shelf.inodes inode with modified := time } }

def rename (temporary name : Bytes) (inode : Nat) : Shelf :=
  { shelf with
    names := Function.update (Function.update shelf.names temporary none) name (some inode) }

end Shelf

/-- The loop of `prune_stale_files` over the entries that `read_dir` gives. -/
def pruneStaleFiles (now : Int) (objectMaxAge : Option Nat) : List Bytes → Shelf → Shelf
  | [], shelf => shelf
  | name :: entries, shelf =>
    pruneStaleFiles now objectMaxAge entries
      (if shelf.staleName now objectMaxAge name then shelf.removeName name else shelf)

/-! ## Sessions -/

/-- A session that closes. -/
inductive Prune where
  | idle
  | scanning (now : Int) (objectMaxAge : Option Nat)
  /-- The file under the name was stale. -/
  | removing (now : Int) (objectMaxAge : Option Nat) (name : Bytes)
  deriving DecidableEq

inductive Prune.Event where
  | start (objectMaxAge : Option Nat)
  /-- An entry of the directory; its time is read. -/
  | look (name : Bytes)
  | remove
  | finish
  deriving DecidableEq

def Prune.step (event : Prune.Event) (shelf : Shelf) : Prune → Option (Shelf × Prune)
  | idle =>
    match event with
    | .start objectMaxAge => some (shelf, scanning shelf.clock objectMaxAge)
    | _ => none
  | scanning now objectMaxAge =>
    match event with
    | .look name =>
      some (shelf,
        if shelf.staleName now objectMaxAge name then removing now objectMaxAge name
        else scanning now objectMaxAge)
    | .finish => some (shelf, idle)
    | _ => none
  | removing now objectMaxAge name =>
    match event with
    | .remove => some (shelf.removeName name, scanning now objectMaxAge)
    | _ => none

/-- What the other sessions do to the directory. -/
inductive Use where
  | tick (elapsed : Nat)
  | create (temporary : Bytes)
  /-- With a time read from the clock before. -/
  | stamp (inode : Nat) (time : Int)
  | rename (temporary name : Bytes)
  /-- A temporary file is given up. -/
  | discard (temporary : Bytes)
  deriving DecidableEq

def Use.step (shelf : Shelf) : Use → Option Shelf
  | .tick elapsed => some { shelf with clock := shelf.clock + elapsed }
  | .create temporary =>
    if isTemporary temporary ∧ shelf.names temporary = none then some (shelf.create temporary)
    else none
  | .stamp inode time => if time ≤ shelf.clock then some (shelf.stamp inode time) else none
  | .rename temporary name =>
    if isTemporary temporary ∧ ¬ isTemporary name then
      (shelf.names temporary).map fun inode => shelf.rename temporary name inode
    else none
  | .discard temporary =>
    if isTemporary temporary then some (shelf.removeName temporary) else none

/-- Sessions that share a directory. -/
abbrev Sessions (ι : Type) : Type := Pool ι Shelf Prune

inductive Sessions.Action (ι : Type) where
  | prune (i : ι) (event : Prune.Event)
  | use (use : Use)
  deriving DecidableEq

variable {ι : Type} [DecidableEq ι]

def Sessions.fire (p : Sessions ι) : Sessions.Action ι → Option (Sessions ι)
  | .prune i event => Pool.fire (fun _ event shelf prune => prune.step event shelf) p i event
  | .use use => (use.step p.shared).map fun shelf => { p with shared := shelf }

def sessions (ι : Type) [DecidableEq ι] : System (Sessions ι) (Sessions.Action ι) where
  init p := (∀ i, p.task i = .idle) ∧ ∀ name inode, p.shared.names name = some inode →
    inode < p.shared.next
  step p a p' := p.fire a = some p'

/-! ## A prune on its own -/

variable {shelf shelf' : Shelf} {now : Int} {objectMaxAge : Option Nat} {name : Bytes}

theorem Shelf.isFile_of_stale (h : shelf.staleName now objectMaxAge name = true) :
    (shelf.names name).any (fun inode => (shelf.inodes inode).isFile) = true := by
  unfold staleName at h
  split at h
  · obtain ⟨inode, hinode, hstale⟩ := (Option.any_eq_true _ _).mp h
    simp only [Inode.stale, Bool.and_eq_true] at hstale
    exact (Option.any_eq_true _ _).mpr ⟨inode, hinode, hstale.1.1⟩
  · cases h

/-- Removing one name leaves what the test says of the others. -/
theorem Shelf.staleName_unlink {other : Bytes} (h : other ≠ name) :
    (shelf.unlink name).staleName now objectMaxAge other =
      shelf.staleName now objectMaxAge other := by
  unfold staleName
  rw [show (shelf.unlink name).names other = shelf.names other from
    Function.update_of_ne h _ _]
  rfl

/-- Left alone, a prune removes the entries that are stale and no other name. -/
theorem pruneStaleFiles_names (now : Int) (objectMaxAge : Option Nat) (entries : List Bytes)
    (shelf : Shelf) (name : Bytes) :
    (pruneStaleFiles now objectMaxAge entries shelf).names name =
      if name ∈ entries ∧ shelf.staleName now objectMaxAge name = true then none
      else shelf.names name := by
  induction entries generalizing shelf with
  | nil => rfl
  | cons first entries ih =>
    rw [pruneStaleFiles, ih]
    by_cases hstale : shelf.staleName now objectMaxAge first = true
    · rw [if_pos hstale, Shelf.removeName, if_pos (Shelf.isFile_of_stale hstale)]
      by_cases hname : name = first
      · subst hname
        have hgone : (shelf.unlink name).names name = none := Function.update_self ..
        rw [hgone, if_pos (⟨List.mem_cons_self, hstale⟩ : name ∈ name :: entries ∧ _), ite_self]
      · have hkept : (shelf.unlink first).names name = shelf.names name :=
          Function.update_of_ne hname _ _
        rw [Shelf.staleName_unlink hname, hkept]
        simp only [List.mem_cons, or_iff_right hname]
    · rw [if_neg hstale]
      by_cases hname : name = first
      · subst hname
        rw [if_neg (fun h => hstale h.2), if_neg (fun h => hstale h.2)]
      · simp only [List.mem_cons, or_iff_right hname]

/-! ## What a step leaves -/

namespace Shelf

variable {other : Bytes} {inode : Nat}

theorem create_names (temporary : Bytes) : (shelf.create temporary).names =
    Function.update shelf.names temporary (some shelf.next) := rfl

theorem create_inodes (temporary : Bytes) : (shelf.create temporary).inodes =
    Function.update shelf.inodes shelf.next ⟨true, shelf.clock⟩ := rfl

theorem stamp_inodes (time : Int) : (shelf.stamp inode time).inodes =
    Function.update shelf.inodes inode { shelf.inodes inode with modified := time } := rfl

theorem rename_names (temporary : Bytes) : (shelf.rename temporary name inode).names =
    Function.update (Function.update shelf.names temporary none) name (some inode) := rfl

@[simp] theorem removeName_inodes : (shelf.removeName name).inodes = shelf.inodes := by
  unfold removeName
  split <;> rfl

@[simp] theorem removeName_next : (shelf.removeName name).next = shelf.next := by
  unfold removeName
  split <;> rfl

@[simp] theorem removeName_clock : (shelf.removeName name).clock = shelf.clock := by
  unfold removeName
  split <;> rfl

theorem removeName_of_ne (h : other ≠ name) :
    (shelf.removeName name).names other = shelf.names other := by
  unfold removeName
  split
  · exact Function.update_of_ne h _ _
  · rfl

theorem of_removeName (h : (shelf.removeName name).names other = some inode) :
    shelf.names other = some inode := by
  by_cases hother : other = name
  · subst hother
    unfold removeName at h
    split at h
    · have hgone : (shelf.unlink other).names other = none := Function.update_self ..
      rw [hgone] at h
      cases h
    · exact h
  · rwa [removeName_of_ne hother] at h

end Shelf

/-- What a prune can do. -/
inductive Prune.Fired (shelf : Shelf) : Prune → Prune.Event → Shelf → Prune → Prop where
  | start (objectMaxAge : Option Nat) :
      Fired shelf .idle (.start objectMaxAge) shelf (.scanning shelf.clock objectMaxAge)
  | fresh (now : Int) (objectMaxAge : Option Nat) (name : Bytes)
      (h : ¬ shelf.staleName now objectMaxAge name = true) :
      Fired shelf (.scanning now objectMaxAge) (.look name) shelf (.scanning now objectMaxAge)
  | stale (now : Int) (objectMaxAge : Option Nat) (name : Bytes)
      (h : shelf.staleName now objectMaxAge name = true) :
      Fired shelf (.scanning now objectMaxAge) (.look name) shelf
        (.removing now objectMaxAge name)
  | removed (now : Int) (objectMaxAge : Option Nat) (name : Bytes) :
      Fired shelf (.removing now objectMaxAge name) .remove (shelf.removeName name)
        (.scanning now objectMaxAge)
  | finish (now : Int) (objectMaxAge : Option Nat) :
      Fired shelf (.scanning now objectMaxAge) .finish shelf .idle

theorem Prune.fired {prune prune' : Prune} {event : Prune.Event}
    (h : prune.step event shelf = some (shelf', prune')) :
    Prune.Fired shelf prune event shelf' prune' := by
  cases prune with
  | idle =>
    cases event with
    | start objectMaxAge =>
      cases h
      exact .start objectMaxAge
    | _ => cases h
  | scanning now objectMaxAge =>
    cases event with
    | look name =>
      by_cases hstale : shelf.staleName now objectMaxAge name = true
      · rw [Prune.step, if_pos hstale] at h
        cases h
        exact .stale now objectMaxAge name hstale
      · rw [Prune.step, if_neg hstale] at h
        cases h
        exact .fresh now objectMaxAge name hstale
    | finish =>
      cases h
      exact .finish now objectMaxAge
    | _ => cases h
  | removing now objectMaxAge name =>
    cases event with
    | remove =>
      cases h
      exact .removed now objectMaxAge name
    | _ => cases h

/-- What the others can do. -/
inductive Use.Fired (shelf : Shelf) : Use → Shelf → Prop where
  | tick (elapsed : Nat) :
      Fired shelf (.tick elapsed) { shelf with clock := shelf.clock + elapsed }
  | create (temporary : Bytes) (h : shelf.names temporary = none) :
      Fired shelf (.create temporary) (shelf.create temporary)
  | stamp (inode : Nat) (time : Int) : Fired shelf (.stamp inode time) (shelf.stamp inode time)
  | rename (temporary name : Bytes) (inode : Nat) (h : shelf.names temporary = some inode) :
      Fired shelf (.rename temporary name) (shelf.rename temporary name inode)
  | discard (temporary : Bytes) : Fired shelf (.discard temporary) (shelf.removeName temporary)

theorem Use.fired {use : Use} (h : use.step shelf = some shelf') : Use.Fired shelf use shelf' := by
  cases use with
  | tick elapsed =>
    cases h
    exact .tick elapsed
  | create temporary =>
    rw [Use.step] at h
    split at h
    · rename_i hfree
      cases h
      exact .create temporary hfree.2
    · cases h
  | stamp inode time =>
    rw [Use.step] at h
    split at h
    · cases h
      exact .stamp inode time
    · cases h
  | rename temporary name =>
    rw [Use.step] at h
    split at h
    · obtain ⟨inode, hinode, rfl⟩ := Option.map_eq_some_iff.mp h
      exact .rename temporary name inode hinode
    · cases h
  | discard temporary =>
    rw [Use.step] at h
    split at h
    · cases h
      exact .discard temporary
    · cases h

/-! ## Files in use -/

variable {p p' q : Sessions ι}

/-- The time a prune has read is not ahead of the clock. -/
def Prune.Timely (clock : Int) : Prune → Prop
  | idle => True
  | scanning now _ | removing now _ _ => now ≤ clock

theorem Prune.Timely.mono {prune : Prune} {clock clock' : Int} (h : prune.Timely clock)
    (hle : clock ≤ clock') : prune.Timely clock' := by
  cases prune with
  | idle => exact trivial
  | scanning now objectMaxAge => exact Int.le_trans h hle
  | removing now objectMaxAge name => exact Int.le_trans h hle

structure Timely (p : Sessions ι) : Prop where
  created : ∀ name inode, p.shared.names name = some inode → inode < p.shared.next
  read : ∀ i, (p.task i).Timely p.shared.clock

theorem timely_prune {prune prune' : Prune} {event : Prune.Event}
    (h : Prune.Fired shelf prune event shelf' prune') (hprune : prune.Timely shelf.clock) :
    shelf'.clock = shelf.clock ∧ shelf'.next = shelf.next ∧ prune'.Timely shelf'.clock ∧
      ∀ name inode, shelf'.names name = some inode → shelf.names name = some inode := by
  cases h with
  | start objectMaxAge => exact ⟨rfl, rfl, Int.le_refl _, fun _ _ h => h⟩
  | fresh now objectMaxAge name _ => exact ⟨rfl, rfl, hprune, fun _ _ h => h⟩
  | stale now objectMaxAge name _ => exact ⟨rfl, rfl, hprune, fun _ _ h => h⟩
  | removed now objectMaxAge name =>
    refine ⟨shelf.removeName_clock, shelf.removeName_next, ?_, fun _ _ => Shelf.of_removeName⟩
    rw [Shelf.removeName_clock]
    exact hprune
  | finish now objectMaxAge => exact ⟨rfl, rfl, trivial, fun _ _ h => h⟩

theorem timely_use {use : Use} (h : Use.Fired shelf use shelf')
    (hcreated : ∀ name inode, shelf.names name = some inode → inode < shelf.next) :
    shelf.clock ≤ shelf'.clock ∧
      ∀ name inode, shelf'.names name = some inode → inode < shelf'.next := by
  cases h with
  | tick elapsed =>
    refine ⟨?_, hcreated⟩
    show shelf.clock ≤ shelf.clock + elapsed
    omega
  | create temporary _ =>
    refine ⟨Int.le_refl _, fun name inode hname => ?_⟩
    show inode < shelf.next + 1
    by_cases htemporary : name = temporary
    · subst htemporary
      rw [Shelf.create_names, Function.update_self] at hname
      cases hname
      omega
    · rw [Shelf.create_names, Function.update_of_ne htemporary] at hname
      have hlt := hcreated name inode hname
      omega
  | stamp inode time => exact ⟨Int.le_refl _, hcreated⟩
  | rename temporary name inode hinode =>
    refine ⟨Int.le_refl _, fun other inode' hother => ?_⟩
    by_cases hname : other = name
    · subst hname
      rw [Shelf.rename_names, Function.update_self] at hother
      cases hother
      exact hcreated temporary _ hinode
    · rw [Shelf.rename_names, Function.update_of_ne hname] at hother
      by_cases htemporary : other = temporary
      · subst htemporary
        rw [Function.update_self] at hother
        cases hother
      · rw [Function.update_of_ne htemporary] at hother
        exact hcreated other inode' hother
  | discard temporary =>
    refine ⟨Int.le_of_eq shelf.removeName_clock.symm, fun name inode hname => ?_⟩
    rw [Shelf.removeName_next]
    exact hcreated name inode (Shelf.of_removeName hname)

theorem fire_prune {i : ι} {event : Prune.Event} (h : p.fire (.prune i event) = some p') :
    Prune.Fired p.shared (p.task i) event p'.shared (p'.task i) ∧
      ∀ j, j ≠ i → p'.task j = p.task j := by
  have hfire : Pool.fire (fun _ event shelf prune => Prune.step event shelf prune) p i event =
      some p' := h
  obtain ⟨hown, hothers⟩ := Pool.fire_eq_some hfire
  exact ⟨Prune.fired hown, hothers⟩

/-- A step is one of a prune, with the others where they were, or one of the sessions. -/
theorem fire_cases {a : Sessions.Action ι} (h : p.fire a = some p') :
    (∃ i event, a = .prune i event ∧
      Prune.Fired p.shared (p.task i) event p'.shared (p'.task i) ∧
      ∀ j, j ≠ i → p'.task j = p.task j) ∨
    ∃ use, a = .use use ∧ Use.Fired p.shared use p'.shared ∧ p'.task = p.task := by
  cases a with
  | prune i event => exact .inl ⟨i, event, rfl, fire_prune h⟩
  | use use =>
    obtain ⟨shelf, hshelf, rfl⟩ := Option.map_eq_some_iff.mp h
    exact .inr ⟨use, rfl, Use.fired hshelf, rfl⟩

theorem Timely.step (h : Timely p) {a : Sessions.Action ι} (hstep : p.fire a = some p') :
    Timely p' := by
  rcases fire_cases hstep with ⟨i, event, -, hown, hothers⟩ | ⟨use, -, huse, htask⟩
  · obtain ⟨hclock, hnext, hread, hnames⟩ := timely_prune hown (h.read i)
    constructor
    · intro name inode hname
      rw [hnext]
      exact h.created name inode (hnames name inode hname)
    · intro j
      by_cases hj : j = i
      · subst hj
        exact hread
      · rw [hothers j hj, hclock]
        exact h.read j
  · obtain ⟨hclock, hcreated⟩ := timely_use huse h.created
    refine ⟨hcreated, fun j => ?_⟩
    rw [htask]
    exact (h.read j).mono hclock

theorem timely {G : Sessions ι → Sessions.Action ι → Prop} (h : (sessions ι).Reach G p) :
    Timely p := by
  refine h.invariant ?_ fun x a y hx _ hstep => hx.step hstep
  rintro x ⟨hidle, hcreated⟩
  refine ⟨hcreated, fun i => ?_⟩
  rw [hidle i]
  exact trivial

/-! ### A prune that nobody disturbs -/

/-- The entries that were looked at. -/
def looked (events : List Prune.Event) : List Bytes :=
  events.filterMap fun
    | .look name => some name
    | _ => none

/-- A prune, from its start to its end. -/
def closing (objectMaxAge : Option Nat) (events : List Prune.Event) : List Prune.Event :=
  .start objectMaxAge :: events ++ [.finish]

/-- A session closes, and nobody else takes a step from the start of its prune to the end. -/
def Undisturbed (p : Sessions ι) (i : ι) (objectMaxAge : Option Nat)
    (events : List Prune.Event) (q : Sessions ι) : Prop :=
  Prune.Event.finish ∉ events ∧
    System.exec Sessions.fire (fun _ _ => true) p
      ((closing objectMaxAge events).map (.prune i)) = some q

/-- The time and the age that a prune goes by. -/
def Prune.reads : Prune → Option (Int × Option Nat)
  | idle => none
  | scanning now objectMaxAge | removing now objectMaxAge _ => some (now, objectMaxAge)

/-- The directory when the removal is done. -/
def Prune.pending (shelf : Shelf) : Prune → Shelf
  | removing _ _ name => shelf.removeName name
  | _ => shelf

theorem looked_cons (event : Prune.Event) (events : List Prune.Event) :
    looked (event :: events) = looked [event] ++ looked events := by
  cases event <;> rfl

theorem pruneStaleFiles_append (now : Int) (objectMaxAge : Option Nat) (xs ys : List Bytes)
    (shelf : Shelf) : pruneStaleFiles now objectMaxAge (xs ++ ys) shelf =
      pruneStaleFiles now objectMaxAge ys (pruneStaleFiles now objectMaxAge xs shelf) := by
  induction xs generalizing shelf with
  | nil => rfl
  | cons name xs ih => exact ih _

/-- One step of a prune is one round of the loop, or the removal that was still to come. -/
theorem pending_prune {prune prune' : Prune} {event : Prune.Event}
    (h : Prune.Fired shelf prune event shelf' prune')
    (hreads : prune.reads = some (now, objectMaxAge)) (hevent : event ≠ .finish) :
    prune'.reads = some (now, objectMaxAge) ∧
      prune'.pending shelf' =
        pruneStaleFiles now objectMaxAge (looked [event]) (prune.pending shelf) := by
  cases h with
  | start _ => cases hreads
  | fresh _ _ name hfresh =>
    cases hreads
    refine ⟨rfl, ?_⟩
    show shelf = pruneStaleFiles now objectMaxAge [name] shelf
    rw [pruneStaleFiles, if_neg hfresh]
    rfl
  | stale _ _ name hstale =>
    cases hreads
    refine ⟨rfl, ?_⟩
    show shelf.removeName name = pruneStaleFiles now objectMaxAge [name] shelf
    rw [pruneStaleFiles, if_pos hstale]
    rfl
  | removed _ _ name =>
    cases hreads
    exact ⟨rfl, rfl⟩
  | finish _ _ => exact absurd rfl hevent

/-- The steps of a scan are the loop over the entries it looks at. -/
theorem pending_scan {i : ι} {events : List Prune.Event}
    (hreads : (p.task i).reads = some (now, objectMaxAge)) (hevents : Prune.Event.finish ∉ events)
    (hrun : System.exec Sessions.fire (fun _ _ => true) p (events.map (.prune i)) = some q) :
    (q.task i).reads = some (now, objectMaxAge) ∧ (∀ j, j ≠ i → q.task j = p.task j) ∧
      (q.task i).pending q.shared =
        pruneStaleFiles now objectMaxAge (looked events) ((p.task i).pending p.shared) := by
  induction events generalizing p with
  | nil =>
    cases hrun
    exact ⟨hreads, fun _ _ => rfl, rfl⟩
  | cons event events ih =>
    obtain ⟨hevent, hrest⟩ := not_or.mp (mt List.mem_cons.mpr hevents)
    obtain ⟨p₁, -, hstep, hrun⟩ := System.exec_cons hrun
    obtain ⟨hown, hothers⟩ := fire_prune hstep
    obtain ⟨hreads₁, hpending⟩ := pending_prune hown hreads (Ne.symm hevent)
    obtain ⟨hreads', hothers', hscan⟩ := ih hreads₁ hrest hrun
    refine ⟨hreads', fun j hj => (hothers' j hj).trans (hothers j hj), ?_⟩
    rw [hscan, hpending, ← pruneStaleFiles_append, ← looked_cons]

theorem pruneStaleFiles_inodes (now : Int) (objectMaxAge : Option Nat) (entries : List Bytes)
    (shelf : Shelf) : (pruneStaleFiles now objectMaxAge entries shelf).inodes = shelf.inodes := by
  induction entries generalizing shelf with
  | nil => rfl
  | cons name entries ih =>
    rw [pruneStaleFiles, ih]
    split
    · exact shelf.removeName_inodes
    · rfl

theorem fire_of_step {i : ι} (event : Prune.Event) {prune prune' : Prune}
    (htask : p.task i = prune) (h : prune.step event p.shared = some (shelf, prune')) :
    p.fire (.prune i event) = some ⟨shelf, Function.update p.task i prune'⟩ := by
  show Option.map _ ((p.task i).step event p.shared) = _
  rw [htask, h]
  rfl

/-- Whatever is listed, a scan can look at it. -/
theorem exists_scan {i : ι} (hscan : p.task i = .scanning now objectMaxAge) (entries : List Bytes) :
    ∃ events q, looked events = entries ∧ Prune.Event.finish ∉ events ∧
      System.exec Sessions.fire (fun _ _ => true) p (events.map (.prune i)) = some q ∧
      q.task i = .scanning now objectMaxAge := by
  induction entries generalizing p with
  | nil => exact ⟨[], p, rfl, List.not_mem_nil, rfl, hscan⟩
  | cons name entries ih =>
    by_cases hstale : p.shared.staleName now objectMaxAge name = true
    · have hlook : p.fire (.prune i (.look name)) = some
          ⟨p.shared, Function.update p.task i (.removing now objectMaxAge name)⟩ :=
        fire_of_step _ hscan (by rw [Prune.step, if_pos hstale])
      have hremove := fire_of_step .remove
        (p := ⟨p.shared, Function.update p.task i (.removing now objectMaxAge name)⟩)
        (Function.update_self ..) rfl
      obtain ⟨events, q, hlooked, hevents, hrun, hend⟩ := ih
        (p := ⟨p.shared.removeName name, Function.update (Function.update p.task i
          (.removing now objectMaxAge name)) i (.scanning now objectMaxAge)⟩)
        (Function.update_self ..)
      refine ⟨.look name :: .remove :: events, q, ?_, ?_, ?_, hend⟩
      · rw [← hlooked]
        rfl
      · exact fun hmem => hevents (by simpa using hmem)
      · rw [List.map_cons, List.map_cons, System.exec, if_pos rfl, hlook, Option.bind_some,
          System.exec, if_pos rfl, hremove, Option.bind_some]
        exact hrun
    · have hlook : p.fire (.prune i (.look name)) = some
          ⟨p.shared, Function.update p.task i (.scanning now objectMaxAge)⟩ :=
        fire_of_step _ hscan (by rw [Prune.step, if_neg hstale])
      obtain ⟨events, q, hlooked, hevents, hrun, hend⟩ := ih
        (p := ⟨p.shared, Function.update p.task i (.scanning now objectMaxAge)⟩)
        (Function.update_self ..)
      refine ⟨.look name :: events, q, ?_, ?_, ?_, hend⟩
      · rw [← hlooked]
        rfl
      · exact fun hmem => hevents (by simpa using hmem)
      · rw [List.map_cons, System.exec, if_pos rfl, hlook, Option.bind_some]
        exact hrun

/-- A prune has read the clock. -/
def begun (p : Sessions ι) (i : ι) (objectMaxAge : Option Nat) : Sessions ι :=
  ⟨p.shared, Function.update p.task i (.scanning p.shared.clock objectMaxAge)⟩

theorem begun_task (p : Sessions ι) (i : ι) (objectMaxAge : Option Nat) :
    (begun p i objectMaxAge).task i = .scanning p.shared.clock objectMaxAge :=
  Function.update_self ..

theorem undisturbed_iff {i : ι} {events : List Prune.Event} (hidle : p.task i = .idle) :
    Undisturbed p i objectMaxAge events q ↔ Prune.Event.finish ∉ events ∧
      ∃ x, System.exec Sessions.fire (fun _ _ => true) (begun p i objectMaxAge)
          (events.map (.prune i)) = some x ∧ x.fire (.prune i .finish) = some q := by
  have hstart : p.fire (.prune i (.start objectMaxAge)) = some (begun p i objectMaxAge) :=
    fire_of_step _ hidle rfl
  have hlast : ∀ x : Sessions ι, System.exec Sessions.fire (fun _ _ => true) x
      ([.finish].map (.prune i)) = x.fire (.prune i .finish) := fun x => by
    rw [List.map_singleton, System.exec, if_pos rfl]
    exact Option.bind_fun_some _
  rw [Undisturbed, closing, List.cons_append, List.map_cons, System.exec, if_pos rfl, hstart,
    Option.bind_some, List.map_append, System.exec_append, Option.bind_eq_some_iff]
  simp only [hlast]

theorem finish_prune {prune prune' : Prune}
    (h : Prune.Fired shelf prune .finish shelf' prune') :
    shelf' = shelf ∧ prune' = .idle ∧ prune.pending shelf = shelf := by
  cases h with
  | finish now objectMaxAge => exact ⟨rfl, rfl, rfl⟩

/-- A session may close undisturbed whatever is listed, and when it does, the entries it looks at
that were stale when it began are gone, every other name is as it was, and so are the files. -/
theorem prune_removes_stale (p : Sessions ι) (i : ι) (hidle : p.task i = .idle)
    (objectMaxAge : Option Nat) :
    (∀ entries, ∃ events q, looked events = entries ∧ Undisturbed p i objectMaxAge events q) ∧
      ∀ events q, Undisturbed p i objectMaxAge events q →
        q.task = p.task ∧ q.shared.inodes = p.shared.inodes ∧
        ∀ name, q.shared.names name =
          if name ∈ looked events ∧ p.shared.staleName p.shared.clock objectMaxAge name = true
          then none else p.shared.names name := by
  refine ⟨fun entries => ?_, fun events q hrun => ?_⟩
  · obtain ⟨events, x, hlooked, hevents, hscan, hend⟩ :=
      exists_scan (begun_task p i objectMaxAge) entries
    exact ⟨events, _, hlooked, (undisturbed_iff hidle).mpr
      ⟨hevents, x, hscan, fire_of_step _ hend rfl⟩⟩
  · obtain ⟨hevents, x, hscan, hfinish⟩ := (undisturbed_iff hidle).mp hrun
    obtain ⟨hown, hothers⟩ := fire_prune hfinish
    obtain ⟨hshared, hback, hdone⟩ := finish_prune hown
    obtain ⟨-, hothers', hpending⟩ :=
      pending_scan (congrArg Prune.reads (begun_task p i objectMaxAge)) hevents hscan
    rw [hdone, ← hshared, begun_task] at hpending
    have hloop : q.shared =
        pruneStaleFiles p.shared.clock objectMaxAge (looked events) p.shared := hpending
    refine ⟨funext fun j => ?_, ?_, fun name => ?_⟩
    · by_cases hj : j = i
      · rw [hj, hback, hidle]
      · rw [hothers j hj, hothers' j hj]
        exact Function.update_of_ne hj ..
    · rw [hloop, pruneStaleFiles_inodes]
    · rw [hloop, pruneStaleFiles_names]

/-- The object `a`, last used at the start of the clock. -/
def sampleSessions : Sessions Unit where
  shared :=
    { names name := if name = [97] then some 0 else none
      inodes _ := ⟨true, 0⟩
      next := 1
      clock := 0 }
  task _ := .idle

/-- Twenty nanoseconds later, with an object `b` that was used five nanoseconds ago. -/
def agedSessions : Sessions Unit where
  shared :=
    { names name := if name = [97] then some 0 else if name = [98] then some 1 else none
      inodes inode := ⟨true, if inode = 1 then 15 else 0⟩
      next := 2
      clock := 20 }
  task _ := .idle

/-- A prune that keeps objects for ten nanoseconds looks at both and removes the first. -/
theorem sample_removed : ∃ q : Sessions Unit,
    Undisturbed agedSessions () (some 10) [.look [97], .remove, .look [98]] q ∧
      q.shared.names [97] = none ∧ q.shared.names [98] = some 1 := by
  have hrun : (System.exec Sessions.fire (fun _ _ => true) agedSessions
      ((closing (some 10) [.look [97], .remove, .look [98]]).map (.prune ()))).any
      (fun _ => true) = true := by
    decide
  obtain ⟨q, hq, -⟩ := (Option.any_eq_true _ _).mp hrun
  have hundisturbed : Undisturbed agedSessions () (some 10) [.look [97], .remove, .look [98]] q :=
    ⟨by decide, hq⟩
  obtain ⟨-, -, hnames⟩ := (prune_removes_stale agedSessions () rfl (some 10)).2 _ q hundisturbed
  refine ⟨q, hundisturbed, ?_, ?_⟩
  · exact (hnames [97]).trans (if_pos (by decide))
  · exact (hnames [98]).trans (if_neg (by decide))

/-! ### The name in use -/

/-- The prune keeps what is under the name for that long, and is not about to remove it. -/
def Prune.Spares (name : Bytes) (age : Nat) : Prune → Prop
  | idle => True
  | scanning _ objectMaxAge => ∀ limit, maxAge objectMaxAge name = some limit → age ≤ limit
  | removing _ objectMaxAge other =>
    other ≠ name ∧ ∀ limit, maxAge objectMaxAge name = some limit → age ≤ limit

/-- There is a file under the name, used no earlier than that. -/
def Shelf.UsedSince (shelf : Shelf) (name : Bytes) (since : Int) : Prop :=
  ∃ inode, shelf.names name = some inode ∧ since ≤ (shelf.inodes inode).modified

/-- Prunes are started that keep the name for that long; what is done to the file is done no
earlier than that; and nobody takes the name away. -/
structure InUse (name : Bytes) (since : Int) (age : Nat) (p : Sessions ι)
    (a : Sessions.Action ι) : Prop where
  prunes : ∀ i objectMaxAge, a = .prune i (.start objectMaxAge) →
    ∀ limit, maxAge objectMaxAge name = some limit → age ≤ limit
  stamps : ∀ inode time, a = .use (.stamp inode time) → p.shared.names name = some inode →
    since ≤ time
  replaced : ∀ temporary, a = .use (.rename temporary name) → p.shared.UsedSince temporary since
  renamed : ∀ other, a ≠ .use (.rename name other)
  discarded : a ≠ .use (.discard name)

variable {since : Int} {age : Nat}

/-- What has been used within the age is not stale. -/
theorem Shelf.UsedSince.not_stale (h : shelf.UsedSince name since) (hnow : now ≤ since + age)
    (hage : ∀ limit, maxAge objectMaxAge name = some limit → age ≤ limit) :
    shelf.staleName now objectMaxAge name = false := by
  obtain ⟨inode, hinode, hsince⟩ := h
  unfold staleName
  cases hlimit : maxAge objectMaxAge name with
  | none => rfl
  | some limit =>
    have hle := hage limit hlimit
    have hyoung : ¬ (limit : Int) < now - (shelf.inodes inode).modified := by omega
    show (shelf.names name).any _ = false
    rw [hinode, Option.any_some, Inode.stale, decide_eq_false hyoung, Bool.and_false]

theorem usedSince_prune {prune prune' : Prune} {event : Prune.Event}
    (h : Prune.Fired shelf prune event shelf' prune') (hused : shelf.UsedSince name since)
    (hspares : prune.Spares name age) (hread : prune.Timely shelf.clock)
    (hstart : ∀ objectMaxAge, event = .start objectMaxAge →
      ∀ limit, maxAge objectMaxAge name = some limit → age ≤ limit)
    (hclock : shelf.clock ≤ since + age) :
    shelf'.UsedSince name since ∧ prune'.Spares name age := by
  cases h with
  | start objectMaxAge => exact ⟨hused, hstart objectMaxAge rfl⟩
  | fresh now objectMaxAge other _ => exact ⟨hused, hspares⟩
  | stale now objectMaxAge other hstale =>
    refine ⟨hused, ?_, hspares⟩
    rintro rfl
    rw [hused.not_stale (Int.le_trans hread hclock) hspares] at hstale
    cases hstale
  | removed now objectMaxAge other =>
    obtain ⟨hother, hage⟩ := hspares
    obtain ⟨inode, hinode, hsince⟩ := hused
    refine ⟨⟨inode, ?_, ?_⟩, hage⟩
    · rw [Shelf.removeName_of_ne hother.symm]
      exact hinode
    · rw [Shelf.removeName_inodes]
      exact hsince
  | finish now objectMaxAge => exact ⟨hused, trivial⟩

theorem usedSince_use {use : Use} (h : Use.Fired shelf use shelf')
    (hused : shelf.UsedSince name since)
    (hcreated : ∀ name inode, shelf.names name = some inode → inode < shelf.next)
    (hstamps : ∀ inode time, use = .stamp inode time → shelf.names name = some inode →
      since ≤ time)
    (hreplaced : ∀ temporary, use = .rename temporary name → shelf.UsedSince temporary since)
    (hrenamed : ∀ other, use ≠ .rename name other) (hdiscarded : use ≠ .discard name) :
    shelf'.UsedSince name since := by
  obtain ⟨inode, hinode, hsince⟩ := hused
  cases h with
  | tick elapsed => exact ⟨inode, hinode, hsince⟩
  | create temporary hfree =>
    have hname : name ≠ temporary := by
      rintro rfl
      cases hfree.symm.trans hinode
    have hold : inode ≠ shelf.next := Nat.ne_of_lt (hcreated name inode hinode)
    refine ⟨inode, ?_, ?_⟩
    · rw [Shelf.create_names, Function.update_of_ne hname]
      exact hinode
    · rw [Shelf.create_inodes, Function.update_of_ne hold]
      exact hsince
  | stamp other time =>
    refine ⟨inode, hinode, ?_⟩
    by_cases hother : inode = other
    · subst hother
      rw [Shelf.stamp_inodes, Function.update_self]
      exact hstamps inode time rfl hinode
    · rw [Shelf.stamp_inodes, Function.update_of_ne hother]
      exact hsince
  | rename temporary other moved hmoved =>
    by_cases hother : name = other
    · subst hother
      obtain ⟨inode', hinode', hsince'⟩ := hreplaced temporary rfl
      cases hmoved.symm.trans hinode'
      exact ⟨moved, Function.update_self .., hsince'⟩
    · have htemporary : name ≠ temporary := by
        rintro rfl
        exact hrenamed other rfl
      refine ⟨inode, ?_, hsince⟩
      rw [Shelf.rename_names, Function.update_of_ne hother, Function.update_of_ne htemporary]
      exact hinode
  | discard temporary =>
    have htemporary : name ≠ temporary := by
      rintro rfl
      exact hdiscarded rfl
    refine ⟨inode, ?_, ?_⟩
    · rw [Shelf.removeName_of_ne htemporary]
      exact hinode
    · rw [Shelf.removeName_inodes]
      exact hsince

/-- A file that was used is there as long as the clock is within the age of that use, whatever
is pruned meanwhile and whoever goes on using it: unless a prune had looked at it before the use
and removes it after. -/
theorem used_file_stays (p q : Sessions ι) (name : Bytes) (since : Int) (age : Nat)
    (hreach : (sessions ι).Reach (fun _ _ => True) p) (hused : p.shared.UsedSince name since)
    (hspares : ∀ i, (p.task i).Spares name age)
    (hrun : (sessions ι).Steps (InUse name since age) p q)
    (hclock : q.shared.clock ≤ since + age) : q.shared.UsedSince name since := by
  have hall : q.shared.clock ≤ since + age →
      q.shared.UsedSince name since ∧ ∀ i, (q.task i).Spares name age := by
    refine hrun.preserves_of_reach (I := fun x => x.shared.clock ≤ since + age →
      x.shared.UsedSince name since ∧ ∀ i, (x.task i).Spares name age) ?_
      (fun _ _ _ => trivial) hreach fun _ => ⟨hused, hspares⟩
    intro x a y hx hI hinuse hstep hlate
    have htimely := timely hx
    rcases fire_cases hstep with ⟨i, event, rfl, hown, hothers⟩ | ⟨use, rfl, huse, htask⟩
    · have hsame := (timely_prune hown (htimely.read i)).1
      rw [hsame] at hlate
      obtain ⟨hbefore, hspared⟩ := hI hlate
      obtain ⟨hafter, hown'⟩ := usedSince_prune hown hbefore (hspared i) (htimely.read i)
        (fun objectMaxAge hevent => hinuse.prunes i objectMaxAge (by rw [hevent])) hlate
      refine ⟨hafter, fun j => ?_⟩
      by_cases hj : j = i
      · subst hj
        exact hown'
      · rw [hothers j hj]
        exact hspared j
    · have hle := (timely_use huse htimely.created).1
      obtain ⟨hbefore, hspared⟩ := hI (Int.le_trans hle hlate)
      refine ⟨usedSince_use huse hbefore htimely.created ?_ ?_ ?_ ?_, fun i => ?_⟩
      · intro inode time heq
        exact hinuse.stamps inode time (by rw [heq])
      · intro temporary heq
        exact hinuse.replaced temporary (by rw [heq])
      · intro other heq
        exact hinuse.renamed other (by rw [heq])
      · intro heq
        exact hinuse.discarded (by rw [heq])
      · rw [htask]
        exact hspared i
  exact (hall hclock).1

/-! ### An object in use -/

theorem sampleSessions_init : (sessions Unit).init sampleSessions := by
  refine ⟨fun _ => rfl, fun name inode hname => ?_⟩
  show inode < 1
  unfold sampleSessions at hname
  dsimp only at hname
  split at hname
  · cases hname
    exact Nat.zero_lt_one
  · cases hname

/-- Scans by prunes that keep objects for ten nanoseconds. -/
def scans : Sessions.Action Unit → Bool
  | .prune _ (.start objectMaxAge) => objectMaxAge = some 10
  | .prune _ _ | .use (.tick _) => true
  | .use _ => false

theorem inUse_of_scans {p : Sessions Unit} {a : Sessions.Action Unit} (h : scans a = true) :
    InUse [97] 0 10 p a := by
  refine ⟨?_, ?_, ?_, ?_, ?_⟩
  · rintro i objectMaxAge rfl limit hlimit
    have hage : objectMaxAge = some 10 := of_decide_eq_true h
    rw [hage] at hlimit
    have hten : maxAge (some 10) [97] = some 10 := by decide
    cases hten.symm.trans hlimit
    exact Nat.le_refl 10
  · rintro inode time rfl
    cases h
  · rintro temporary rfl
    cases h
  · rintro other rfl
    cases h
  · rintro rfl
    cases h

/-- Two sessions close within ten nanoseconds of the use and look at the object. -/
theorem sample_stays : ∃ q : Sessions Unit, q.shared.clock = 10 ∧ q.shared.UsedSince [97] 0 := by
  have hrun : (System.exec Sessions.fire (fun _ a => scans a) sampleSessions
      [.use (.tick 5), .prune () (.start (some 10)), .prune () (.look [97]), .prune () .finish,
        .use (.tick 5), .prune () (.start (some 10)), .prune () (.look [97])]).any
      (fun q => decide (q.shared.clock = 10)) = true := by
    decide
  obtain ⟨q, hq, hcheck⟩ := (Option.any_eq_true _ _).mp hrun
  have hclock : q.shared.clock = 10 := of_decide_eq_true hcheck
  have hsteps : (sessions Unit).Steps (InUse [97] 0 10) sampleSessions q :=
    System.steps_of_exec (fun _ _ _ hfire => hfire) (fun _ _ ha => inUse_of_scans ha) hq
  refine ⟨q, hclock, ?_⟩
  refine used_file_stays sampleSessions q [97] 0 10 ?_ ?_ (fun _ => trivial) hsteps ?_
  · exact ⟨_, sampleSessions_init, Relation.ReflTransGen.refl⟩
  · exact ⟨0, rfl, Int.le_refl 0⟩
  · rw [hclock]
    decide

/-- A use that comes after the look and before the removal does not save the object. -/
example : ((System.exec Sessions.fire (fun _ _ => true) sampleSessions
    [.use (.tick 20), .prune () (.start (some 10)), .prune () (.look [97]),
      .use (.stamp 0 20), .prune () .remove]).any fun q =>
        decide (q.shared.names [97] = none)) = true := by
  decide

end Flywheel.Cacheprog
