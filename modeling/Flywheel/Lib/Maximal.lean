import Mathlib.Order.RelClasses

/-!
# The best of a list

`keepBest` keeps an element until a better one comes. Where "better" is a strict order that need not
be total, a list leaves one of its unbeaten elements (`foldl_keepBest_unbeaten`). Which one it is
depends on the order of the list: an unbeaten element that comes first stays
(`foldl_keepBest_of_unbeaten`).
-/

set_option autoImplicit false

namespace Flywheel.Lib

universe u

variable {α : Type u} {r : α → α → Prop} [DecidableRel r]

/-- `x` replaces what it is better than, and nothing. -/
def keepBest (r : α → α → Prop) [DecidableRel r] (best : Option α) (x : α) : Option α :=
  if ∀ b ∈ best, r b x then some x else best

theorem keepBest_some (b x : α) : keepBest r (some b) x = some (if r b x then x else b) := by
  by_cases h : r b x
  · simp [keepBest, h]
  · simp [keepBest, h]

/-- What is kept stays while nothing better comes. -/
theorem foldl_keepBest_of_unbeaten {l : List α} {b : α} (h : ∀ x ∈ l, ¬ r b x) :
    l.foldl (keepBest r) (some b) = some b := by
  induction l with
  | nil => rfl
  | cons x l ih =>
    show l.foldl (keepBest r) (keepBest r (some b) x) = some b
    rw [keepBest_some, if_neg (h x List.mem_cons_self)]
    exact ih fun y hy => h y (List.mem_cons_of_mem _ hy)

section

variable [IsStrictOrder α r]

/-- What is left is what there was at first or better, and nothing that came is better than it. -/
theorem foldl_keepBest_some (l : List α) (b : α) : ∃ b', l.foldl (keepBest r) (some b) = some b' ∧
    b' ∈ b :: l ∧ (b' = b ∨ r b b') ∧ ∀ x ∈ l, ¬ r b' x := by
  induction l generalizing b with
  | nil => exact ⟨b, rfl, List.mem_cons_self, .inl rfl, nofun⟩
  | cons x l ih =>
    by_cases hbx : r b x
    · obtain ⟨b', hfold, hmem, hge, hmax⟩ := ih x
      refine ⟨b', ?_, List.mem_cons_of_mem _ hmem, .inr ?_, ?_⟩
      · rw [List.foldl_cons, keepBest_some, if_pos hbx, hfold]
      · obtain rfl | hge := hge
        · exact hbx
        · exact IsTrans.trans _ _ _ hbx hge
      · intro y hy hlt
        obtain rfl | hy := List.mem_cons.mp hy
        · obtain rfl | hge := hge
          · exact irrefl_of r _ hlt
          · exact asymm_of r hge hlt
        · exact hmax y hy hlt
    · obtain ⟨b', hfold, hmem, hge, hmax⟩ := ih b
      refine ⟨b', ?_, ?_, hge, ?_⟩
      · rw [List.foldl_cons, keepBest_some, if_neg hbx, hfold]
      · obtain rfl | hmem := List.mem_cons.mp hmem
        · exact List.mem_cons_self
        · exact List.mem_cons_of_mem _ (List.mem_cons_of_mem _ hmem)
      · intro y hy hlt
        obtain rfl | hy := List.mem_cons.mp hy
        · obtain rfl | hge := hge
          · exact hbx hlt
          · exact hbx (IsTrans.trans _ _ _ hge hlt)
        · exact hmax y hy hlt

theorem foldl_keepBest_unbeaten {l : List α} {b : α} (h : l.foldl (keepBest r) none = some b) :
    b ∈ l ∧ ∀ x ∈ l, ¬ r b x := by
  cases l with
  | nil => cases h
  | cons x l =>
    have hfirst : (x :: l).foldl (keepBest r) none = l.foldl (keepBest r) (some x) := rfl
    obtain ⟨b', hfold, hmem, hge, hmax⟩ := foldl_keepBest_some (r := r) l x
    obtain rfl : b' = b := Option.some.inj (hfold.symm.trans (hfirst.symm.trans h))
    refine ⟨hmem, fun y hy hlt => ?_⟩
    obtain rfl | hy := List.mem_cons.mp hy
    · obtain rfl | hge := hge
      · exact irrefl_of r _ hlt
      · exact asymm_of r hge hlt
    · exact hmax y hy hlt

theorem foldl_keepBest_ne_none {l : List α} (h : l ≠ []) : l.foldl (keepBest r) none ≠ none := by
  cases l with
  | nil => exact absurd rfl h
  | cons x l =>
    obtain ⟨b, hfold, -⟩ := foldl_keepBest_some (r := r) l x
    show l.foldl (keepBest r) (some x) ≠ none
    rw [hfold]
    exact Option.some_ne_none b

end

end Flywheel.Lib
