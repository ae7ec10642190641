import Mathlib.Data.List.Basic

/-!
# A store with synchronous and asynchronous batches

A store applies batches atomically. A synchronous batch is on disk, together with every
batch before it, when the write returns; after an asynchronous one, a loss of power may
fall back to any state since the last synchronous batch. `Journal σ` keeps the
current state and the states such a loss may leave behind.
-/

set_option autoImplicit false

namespace Flywheel.Lib

universe u

/-- The current state of a store and the earlier states, newest first, that a loss of
power may fall back to. -/
structure Journal (σ : Type u) where
  current : σ
  earlier : List σ

namespace Journal

variable {σ : Type u}

/-- A store all of whose batches are on disk. -/
def synced (x : σ) : Journal σ := ⟨x, []⟩

/-- Apply a batch without waiting for the disk. -/
def write (j : Journal σ) (batch : σ → σ) : Journal σ :=
  ⟨batch j.current, j.current :: j.earlier⟩

/-- Apply a batch and wait until it, and every batch before it, is on disk. -/
def writeSync (j : Journal σ) (batch : σ → σ) : Journal σ := synced (batch j.current)

/-- The states a loss of power may leave behind. -/
def Survives (j : Journal σ) (x : σ) : Prop := x = j.current ∨ x ∈ j.earlier

@[simp] theorem synced_current (x : σ) : (synced x).current = x := rfl

@[simp] theorem write_current (j : Journal σ) (batch : σ → σ) :
    (j.write batch).current = batch j.current := rfl

@[simp] theorem writeSync_current (j : Journal σ) (batch : σ → σ) :
    (j.writeSync batch).current = batch j.current := rfl

/-! ## Properties that no loss of power can undo -/

/-- `P` holds now and in every state a loss of power may fall back to. -/
def Always (P : σ → Prop) (j : Journal σ) : Prop := ∀ x, j.Survives x → P x

theorem Always.current {P : σ → Prop} {j : Journal σ} (h : j.Always P) : P j.current :=
  h _ (.inl rfl)

theorem Always.synced {P : σ → Prop} {x : σ} (h : P x) : (synced x).Always P := by
  rintro y (rfl | hy)
  · exact h
  · cases hy

/-- An asynchronous batch keeps what it does not break itself. -/
theorem Always.write {P : σ → Prop} {j : Journal σ} {batch : σ → σ} (h : j.Always P)
    (hb : P (batch j.current)) : (j.write batch).Always P := by
  rintro x (rfl | hx)
  · exact hb
  · rcases List.mem_cons.mp hx with rfl | hx
    · exact h.current
    · exact h x (.inr hx)

/-- A synchronous batch makes what holds after it hold for good. -/
theorem Always.writeSync {P : σ → Prop} {j : Journal σ} {batch : σ → σ}
    (hb : P (batch j.current)) : (j.writeSync batch).Always P :=
  Always.synced hb

end Journal

end Flywheel.Lib
