import Mathlib.Data.List.Basic

/-!
# Two windows

What is marked is kept for the rest of the window it was marked in and for the next one. `rotate`
ends a window: the current one becomes the previous one, and the previous one is forgotten. Two
rotations forget everything that came before them (`run_eq_of_two`), one keeps the current window
(`run_eq_of_one`).
-/

set_option autoImplicit false

namespace Flywheel.Lib

universe u

/-- The marks of the current window and of the one before it. -/
structure Windows (α : Type u) where
  current : List α
  previous : List α

inductive WindowOp (α : Type u) where
  | mark (x : α)
  | rotate

namespace Windows

variable {α : Type u}

def empty : Windows α := ⟨[], []⟩

def mark (w : Windows α) (x : α) : Windows α := { w with current := x :: w.current }

def rotate (w : Windows α) : Windows α := ⟨[], w.current⟩

def run (w : Windows α) : List (WindowOp α) → Windows α
  | [] => w
  | .mark x :: ops => run (w.mark x) ops
  | .rotate :: ops => run w.rotate ops

def rotations : List (WindowOp α) → Nat
  | [] => 0
  | .mark _ :: ops => rotations ops
  | .rotate :: ops => rotations ops + 1

variable {w w' : Windows α} {ops : List (WindowOp α)} {x : α}

theorem run_append (ops ops' : List (WindowOp α)) : w.run (ops ++ ops') = (w.run ops).run ops' := by
  induction ops generalizing w with
  | nil => rfl
  | cons op ops ih =>
    cases op with
    | mark x => exact ih
    | rotate => exact ih

/-- What is in the current window is there until a rotation, and in the previous one until the
next. -/
theorem mem_run_of_mem (ops : List (WindowOp α)) (hx : x ∈ w.current) :
    (rotations ops = 0 → x ∈ (w.run ops).current) ∧ (rotations ops = 1 → x ∈ (w.run ops).previous) := by
  have hkept : ∀ (ops : List (WindowOp α)) (w : Windows α), x ∈ w.previous → rotations ops = 0 →
      x ∈ (w.run ops).previous := by
    intro ops
    induction ops with
    | nil => exact fun w hx _ => hx
    | cons op ops ih =>
      intro w hx hnone
      cases op with
      | mark y => exact ih (w.mark y) hx hnone
      | rotate => exact absurd hnone (Nat.succ_ne_zero _)
  induction ops generalizing w with
  | nil => exact ⟨fun _ => hx, fun hone => absurd hone Nat.zero_ne_one⟩
  | cons op ops ih =>
    cases op with
    | mark y => exact ih (List.mem_cons_of_mem y hx)
    | rotate =>
      constructor
      · exact fun hnone => absurd hnone (Nat.succ_ne_zero _)
      · exact fun hone => hkept ops w.rotate hx (Nat.succ.inj hone)

/-- After a rotation only the window that it ended matters. -/
theorem run_eq_of_one (hcurrent : w.current = w'.current) (hops : 1 ≤ rotations ops) :
    w.run ops = w'.run ops := by
  induction ops generalizing w w' with
  | nil => exact absurd hops (Nat.not_succ_le_zero _)
  | cons op ops ih =>
    cases op with
    | mark x => exact ih (congrArg (x :: ·) hcurrent) hops
    | rotate =>
      have hrotate : w.rotate = w'.rotate := congrArg (Windows.mk []) hcurrent
      show w.rotate.run ops = w'.rotate.run ops
      rw [hrotate]

/-- Two rotations forget everything. -/
theorem run_eq_of_two (hops : 2 ≤ rotations ops) : w.run ops = w'.run ops := by
  induction ops generalizing w w' with
  | nil => exact absurd hops (Nat.not_succ_le_zero _)
  | cons op ops ih =>
    cases op with
    | mark x => exact ih hops
    | rotate => exact run_eq_of_one (w := w.rotate) rfl (Nat.le_of_succ_le_succ hops)

end Windows

end Flywheel.Lib
