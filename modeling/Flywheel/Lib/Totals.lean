import Flywheel.Lib.Transition
import Mathlib.Algebra.Order.BigOperators.Group.Finset
import Mathlib.Data.Fintype.BigOperators

/-!
# Totals over the threads of a pool

A counter that is meant to be the sum of what the threads hold stays so as long as every
step moves the counter by what it moves the stepping thread's share. `sum_update` is the
arithmetic of replacing one share, `Pool.total_fire` the same for a step of a pool.
-/

set_option autoImplicit false

namespace Flywheel.Lib

universe u v w

variable {ι : Type u} [Fintype ι]

/-- A sum changes by what the replaced element changes. -/
theorem sum_update [DecidableEq ι] {α : Type v} (g : α → Nat) (f : ι → α) (i : ι) (x : α) :
    ∑ j, g (Function.update f i x j) + g (f i) = ∑ j, g (f j) + g x := by
  have hupdate : (fun j => g (Function.update f i x j)) =
      Function.update (fun j => g (f j)) i (g x) := by
    funext j
    by_cases hj : j = i
    · subst hj
      simp
    · simp [hj]
  rw [hupdate, Finset.sum_update_of_mem (Finset.mem_univ i), Finset.sdiff_singleton_eq_erase]
  have herase := Finset.sum_erase_add Finset.univ (fun j => g (f j)) (Finset.mem_univ i)
  omega

/-- One element is at most the sum. -/
theorem le_sum {α : Type v} (g : α → Nat) (f : ι → α) (i : ι) : g (f i) ≤ ∑ j, g (f j) :=
  Finset.single_le_sum (f := fun j => g (f j)) (fun _ _ => Nat.zero_le _) (Finset.mem_univ i)

namespace Pool

variable {σ : Type v} {τ : Type w}

/-- What the threads hold together. -/
def total (p : Pool ι σ τ) (g : τ → Nat) : Nat := ∑ i, g (p.task i)

theorem le_total (p : Pool ι σ τ) (g : τ → Nat) (i : ι) : g (p.task i) ≤ p.total g :=
  le_sum g p.task i

/-- A step changes the total by what it changes the stepping thread's share. -/
theorem total_fire [DecidableEq ι] {ε : Type*} {step : ι → ε → σ → τ → Option (σ × τ)}
    {p p' : Pool ι σ τ} {i : ι} {e : ε} (h : p.fire step i e = some p') (g : τ → Nat) :
    p'.total g + g (p.task i) = p.total g + g (p'.task i) := by
  obtain ⟨r, -, rfl⟩ := Option.map_eq_some_iff.mp h
  have hsum := sum_update g p.task i r.2
  show ∑ j, g (Function.update p.task i r.2 j) + _ = _ + g (Function.update p.task i r.2 i)
  rw [hsum, Function.update_self]
  rfl

end Pool

end Flywheel.Lib
