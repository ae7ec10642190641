import Mathlib.Data.Finset.Basic
import Mathlib.Data.Finset.Card
import Mathlib.Logic.Function.Basic

/-!
# Locks that name their holders

- `Mutexes ι`: an array of mutexes; each cell names the thread holding it.
- `RwLock ι`: a readers-writer lock that names its writer and its readers. That a
  writer excludes readers is a field, so a lock violating it cannot be built.
- `RefCounts ι`: reference-counted cells that name the owners of their references.

Acquiring is partial: `none` means that the thread has to wait. The order in which
waiting threads are served is left open, so every fair or unfair queue discipline is
one of the resulting schedules.
-/

set_option autoImplicit false

namespace Flywheel.Lib

universe u

variable {ι : Type u}

/-! ## Mutex arrays -/

/-- An array of mutexes, each naming the thread that holds it. -/
def Mutexes (ι : Type u) : Type u := Nat → Option ι

namespace Mutexes

def free : Mutexes ι := fun _ => none

/-- Take the mutex in cell `k`, if nobody holds it. -/
def lock (m : Mutexes ι) (k : Nat) (i : ι) : Option (Mutexes ι) :=
  if m k = none then some (Function.update m k (some i)) else none

def unlock (m : Mutexes ι) (k : Nat) : Mutexes ι := Function.update m k none

theorem lock_eq_some {m m' : Mutexes ι} {k : Nat} {i : ι} (h : m.lock k i = some m') :
    m k = none ∧ m' k = some i ∧ ∀ l, l ≠ k → m' l = m l := by
  unfold lock at h
  split at h
  · rename_i hfree
    cases h
    exact ⟨hfree, Function.update_self .., fun l hl => Function.update_of_ne hl ..⟩
  · cases h

@[simp] theorem unlock_self (m : Mutexes ι) (k : Nat) : m.unlock k k = none :=
  Function.update_self ..

theorem unlock_of_ne {m : Mutexes ι} {k l : Nat} (h : l ≠ k) : m.unlock k l = m l :=
  Function.update_of_ne h ..

/-- A lock held by `j` survives another thread's acquisition. -/
theorem lock_keeps {m m' : Mutexes ι} {k l : Nat} {i j : ι} (h : m.lock k i = some m')
    (hj : m l = some j) : m' l = some j := by
  obtain ⟨hfree, -, hother⟩ := lock_eq_some h
  by_cases hl : l = k
  · subst hl
    rw [hfree] at hj
    cases hj
  · rw [hother l hl, hj]

/-- A lock held by `j` survives the release of a lock that `i ≠ j` holds. -/
theorem unlock_keeps {m : Mutexes ι} {k l : Nat} {i j : ι} (hi : m k = some i)
    (hj : m l = some j) (hne : j ≠ i) : m.unlock k l = some j := by
  by_cases hl : l = k
  · subst hl
    rw [hi] at hj
    exact absurd (Option.some.inj hj).symm hne
  · rw [unlock_of_ne hl, hj]

end Mutexes

/-! ## Readers-writer locks -/

/-- A readers-writer lock; `excl` says that a writer excludes readers. -/
structure RwLock (ι : Type u) where
  writer : Option ι
  readers : Finset ι
  excl : writer ≠ none → readers = ∅

namespace RwLock

def free : RwLock ι := ⟨none, ∅, fun h => absurd rfl h⟩

/-- A reader and a writer never hold one lock together. -/
theorem not_mem_of_writer {l : RwLock ι} {i j : ι} (hw : l.writer = some i)
    (hr : j ∈ l.readers) : False := by
  have hempty := l.excl (by simp [hw])
  simp [hempty] at hr

def releaseWrite (l : RwLock ι) : RwLock ι :=
  ⟨none, l.readers, fun h => absurd rfl h⟩

@[simp] theorem releaseWrite_readers (l : RwLock ι) : l.releaseWrite.readers = l.readers := rfl

variable [DecidableEq ι]

/-- Take the shared side, if there is no writer. -/
def read (l : RwLock ι) (i : ι) : Option (RwLock ι) :=
  if h : l.writer = none then
    some ⟨l.writer, insert i l.readers, fun hw => absurd h hw⟩
  else none

/-- Take the exclusive side, if nobody holds either side. -/
def write (l : RwLock ι) (i : ι) : Option (RwLock ι) :=
  if h : l.writer = none ∧ l.readers = ∅ then
    some ⟨some i, l.readers, fun _ => h.2⟩
  else none

def releaseRead (l : RwLock ι) (i : ι) : RwLock ι :=
  ⟨l.writer, l.readers.erase i, fun hw => by rw [l.excl hw, Finset.erase_empty]⟩

theorem read_eq_some {l l' : RwLock ι} {i : ι} (h : l.read i = some l') :
    l.writer = none ∧ l'.writer = none ∧ l'.readers = insert i l.readers := by
  unfold read at h
  split at h
  · rename_i hw
    cases h
    exact ⟨hw, hw, rfl⟩
  · cases h

theorem write_eq_some {l l' : RwLock ι} {i : ι} (h : l.write i = some l') :
    l.writer = none ∧ l.readers = ∅ ∧ l'.writer = some i ∧ l'.readers = ∅ := by
  unfold write at h
  split at h
  · rename_i hw
    cases h
    exact ⟨hw.1, hw.2, rfl, hw.2⟩
  · cases h

@[simp] theorem releaseRead_writer (l : RwLock ι) (i : ι) :
    (l.releaseRead i).writer = l.writer := rfl

theorem mem_releaseRead {l : RwLock ι} {i j : ι} (h : j ∈ l.readers) (hne : j ≠ i) :
    j ∈ (l.releaseRead i).readers :=
  Finset.mem_erase.mpr ⟨hne, h⟩

end RwLock

/-! ## Reference counts -/

/-- Reference-counted cells, each with the owners of one reference to it. -/
def RefCounts (ι : Type u) : Type u := Nat → Finset ι

namespace RefCounts

def none : RefCounts ι := fun _ => ∅

def strongCount (r : RefCounts ι) (l : Nat) : Nat := (r l).card

variable [DecidableEq ι]

/-- `i` takes a reference to the cell `l`. -/
def clone (r : RefCounts ι) (l : Nat) (i : ι) : RefCounts ι :=
  Function.update r l (insert i (r l))

/-- `i` drops its reference to the cell `l`. -/
def drop (r : RefCounts ι) (l : Nat) (i : ι) : RefCounts ι :=
  Function.update r l ((r l).erase i)

theorem clone_self (r : RefCounts ι) (l : Nat) (i : ι) : r.clone l i l = insert i (r l) :=
  Function.update_self ..

theorem clone_of_ne {r : RefCounts ι} {l m : Nat} {i : ι} (h : m ≠ l) : r.clone l i m = r m :=
  Function.update_of_ne h ..

theorem drop_self (r : RefCounts ι) (l : Nat) (i : ι) : r.drop l i l = (r l).erase i :=
  Function.update_self ..

theorem drop_of_ne {r : RefCounts ι} {l m : Nat} {i : ι} (h : m ≠ l) : r.drop l i m = r m :=
  Function.update_of_ne h ..

@[simp] theorem mem_clone {r : RefCounts ι} {l m : Nat} {i j : ι} :
    j ∈ r.clone l i m ↔ (m = l ∧ j = i) ∨ j ∈ r m := by
  by_cases hm : m = l
  · subst hm
    simp [clone_self]
  · simp [clone_of_ne hm, hm]

@[simp] theorem mem_drop {r : RefCounts ι} {l m : Nat} {i j : ι} :
    j ∈ r.drop l i m ↔ j ∈ r m ∧ ¬ (m = l ∧ j = i) := by
  by_cases hm : m = l
  · subst hm
    simp [drop_self, and_comm]
  · simp [drop_of_ne hm, hm]

/-- A count of two leaves no third owner. -/
theorem eq_of_strongCount_le_two {r : RefCounts ι} {l : Nat} {i j k : ι} (hi : i ∈ r l)
    (hj : j ∈ r l) (hne : i ≠ j) (h : r.strongCount l ≤ 2) (hk : k ∈ r l) : k = i ∨ k = j := by
  by_contra hother
  rw [not_or] at hother
  have hcard : ({i, j, k} : Finset ι).card = 3 :=
    Finset.card_eq_three.mpr ⟨i, j, k, hne, Ne.symm hother.1, Ne.symm hother.2, rfl⟩
  have hsub : ({i, j, k} : Finset ι) ⊆ r l := by
    simp [Finset.insert_subset_iff, hi, hj, hk]
  have hle := Finset.card_le_card hsub
  rw [strongCount] at h
  omega

/-- A count above two has an owner beside any two. -/
theorem exists_third_owner {r : RefCounts ι} {l : Nat} (i j : ι) (h : ¬ r.strongCount l ≤ 2) :
    ∃ k ∈ r l, k ≠ i ∧ k ≠ j := by
  by_contra hnone
  push Not at hnone
  refine h ((Finset.card_le_card (t := {i, j}) fun k hk => ?_).trans Finset.card_le_two)
  by_cases hki : k = i
  · simp [hki]
  · simp [hnone k hk hki]

end RefCounts

end Flywheel.Lib
