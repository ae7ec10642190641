import Flywheel.Lib.Transition
import Mathlib.Algebra.Order.BigOperators.Group.Finset

/-!
# Progress

What a run comes to, rather than what it keeps:

- `System.acc_of_fall`: when every step lowers a measure, no run goes on forever.
- `System.Steps.exists_rest`: when some step lowers it wherever there is something left to
  do, there is a run to a state where nothing is left.
- `exists_ready`: those who wait for each other only down a rank do not all wait.
- `Pool.weight`: the sum of what each thread has left, which a step changes at one thread.
-/

set_option autoImplicit false

namespace Flywheel.Lib

universe u v w

namespace System

variable {σ : Type u} {α : Type v} {β : Type w} {S : System σ α} {G : σ → α → Prop}
variable {lt : β → β → Prop} {μ : σ → β} {I : σ → Prop}

/-- A measure that every step lowers bounds every run. -/
theorem acc_of_fall (hwf : WellFounded lt)
    (hkeep : ∀ x a y, I x → G x a → S.step x a y → I y)
    (hfall : ∀ x a y, I x → G x a → S.step x a y → lt (μ y) (μ x)) {s : σ} (hs : I s) :
    Acc (fun y x => S.GStep G x y) s := by
  -- induction on the measure; the invariant goes along
  have hacc : ∀ b s, I s → μ s = b → Acc (fun y x => S.GStep G x y) s := by
    intro b
    induction b using hwf.induction with
    | _ b ih =>
      rintro s hs rfl
      refine ⟨s, ?_⟩
      rintro y ⟨a, ha, hstep⟩
      exact ih (μ y) (hfall s a y hs ha hstep) y (hkeep s a y hs ha hstep) rfl
  exact hacc (μ s) s hs rfl

/-- A measure that some step lowers until there is nothing left to do leads there. -/
theorem Steps.exists_rest (hwf : WellFounded lt) {Rest : σ → Prop}
    (hkeep : ∀ x a y, I x → G x a → S.step x a y → I y)
    (hgo : ∀ x, I x → ¬ Rest x → ∃ a y, G x a ∧ S.step x a y ∧ lt (μ y) (μ x))
    {s : σ} (hs : I s) : ∃ t, S.Steps G s t ∧ I t ∧ Rest t := by
  have hrun : ∀ b s, I s → μ s = b → ∃ t, S.Steps G s t ∧ I t ∧ Rest t := by
    intro b
    induction b using hwf.induction with
    | _ b ih =>
      rintro s hs rfl
      by_cases hrest : Rest s
      · exact ⟨s, Relation.ReflTransGen.refl, hs, hrest⟩
      · obtain ⟨a, y, ha, hstep, hlt⟩ := hgo s hs hrest
        obtain ⟨t, ht, hI, hrest⟩ := ih (μ y) hlt y (hkeep s a y hs ha hstep) rfl
        exact ⟨t, Relation.ReflTransGen.head ⟨a, ha, hstep⟩ ht, hI, hrest⟩
  exact hrun (μ s) s hs rfl

end System

/-- Where waiting goes down a rank, someone waits for nobody. -/
theorem exists_ready {ι : Type u} {β : Type w} {lt : β → β → Prop} (hwf : WellFounded lt)
    {busy : ι → Prop} {waits : ι → ι → Prop} {rank : ι → β}
    (hdown : ∀ i j, busy i → waits i j → busy j ∧ lt (rank j) (rank i)) {i : ι} (hi : busy i) :
    ∃ j, busy j ∧ ∀ k, ¬ waits j k := by
  induction hn : rank i using hwf.induction generalizing i with
  | _ n ih =>
    subst hn
    by_cases hwait : ∃ k, waits i k
    · obtain ⟨k, hk⟩ := hwait
      obtain ⟨hbusy, hlt⟩ := hdown i k hi hk
      exact ih (rank k) hlt hbusy rfl
    · exact ⟨i, hi, fun k hk => hwait ⟨k, hk⟩⟩

namespace Pool

variable {ι : Type u} {σ : Type v} {τ : Type w} {ε : Type*} [DecidableEq ι]
variable {step : ι → ε → σ → τ → Option (σ × τ)} {p p' : Pool ι σ τ} {i : ι} {e : ε}

/-- What the threads in `L` have left to do, all together. -/
def weight (w : τ → Nat) (L : Finset ι) (p : Pool ι σ τ) : Nat := ∑ j ∈ L, w (p.task j)

theorem weight_fire_lt {w : τ → Nat} {L : Finset ι} (hi : i ∈ L)
    (h : p.fire step i e = some p') (hw : w (p'.task i) < w (p.task i)) :
    p'.weight w L < p.weight w L := by
  refine Finset.sum_lt_sum (fun j _ => ?_) ⟨i, hi, hw⟩
  by_cases hji : j = i
  · rw [hji]
    exact hw.le
  · rw [(fire_eq_some h).2 j hji]

theorem weight_fire_eq {w : τ → Nat} {L : Finset ι} (h : p.fire step i e = some p')
    (hw : w (p'.task i) = w (p.task i)) : p'.weight w L = p.weight w L := by
  refine Finset.sum_congr rfl fun j _ => ?_
  by_cases hji : j = i
  · rw [hji, hw]
  · rw [(fire_eq_some h).2 j hji]

end Pool

end Flywheel.Lib
