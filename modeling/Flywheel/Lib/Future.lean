import Mathlib.Logic.Basic

/-!
# Programs as trees of operations

`Future κ α` is a program that performs operations of `κ` and returns an `α`. Unlike a function it
can be looked at between two operations, which is where an asynchronous program is suspended and
may be dropped.

A `Contract` says what each operation needs and what it ensures, over an abstraction `V` of the
state. `Future.wp` extends it to programs, by recursion on the tree, and so holds of what is left of
a program after any operation. `Runs` is the triple of a program that may also fail.
-/

set_option autoImplicit false

namespace Flywheel.Lib

variable {κ : Type → Type} {V ε α β : Type}

inductive Future (κ : Type → Type) (α : Type) : Type 1 where
  | pure (a : α)
  | op {β : Type} (k : κ β) (resume : β → Future κ α)

namespace Future

def bind : Future κ α → (α → Future κ β) → Future κ β
  | .pure a, f => f a
  | .op k resume, f => .op k fun b => (resume b).bind f

instance : Monad (Future κ) where
  pure := .pure
  bind := bind

end Future

/-- What operations need and ensure. -/
structure Contract (κ : Type → Type) (V : Type) where
  spec : {β : Type} → κ β → V → (β → V → Prop) → Prop
  mono : ∀ {β : Type} (k : κ β) (v : V) {Q Q' : β → V → Prop},
    (∀ b v', Q b v' → Q' b v') → spec k v Q → spec k v Q'

namespace Future

variable (C : Contract κ V)

/-- Every operation is performed where its contract allows it, and what is returned is in `Q`. -/
def wp : Future κ α → V → (α → V → Prop) → Prop
  | .pure a, v, Q => Q a v
  | .op k resume, v, Q => C.spec k v fun b v' => (resume b).wp v' Q

variable {C}

theorem wp_mono {m : Future κ α} {v : V} {Q Q' : α → V → Prop} (hQ : ∀ a v', Q a v' → Q' a v')
    (h : m.wp C v Q) : m.wp C v Q' := by
  induction m generalizing v with
  | pure a => exact hQ a v h
  | op k resume ih => exact C.mono k v (fun b v' => ih b) h

theorem wp_bind {m : Future κ α} {f : α → Future κ β} {v : V} {Q : β → V → Prop}
    (h : m.wp C v fun a v' => (f a).wp C v' Q) : (m.bind f).wp C v Q := by
  induction m generalizing v with
  | pure a => exact h
  | op k resume ih => exact C.mono k v (fun b v' => ih b) h

end Future

/-! ## Programs that fail -/

abbrev Async (κ : Type → Type) (ε α : Type) : Type 1 := ExceptT ε (Future κ) α

/-- One operation. -/
def perform (k : κ α) : Async κ ε α := ExceptT.lift (.op k .pure)

/-- From a view in `P`, the program returns within `Q` or fails within `E`. -/
def Runs (C : Contract κ V) (P : V → Prop) (m : Async κ ε α) (Q : α → V → Prop)
    (E : V → Prop) : Prop :=
  ∀ v, P v → Future.wp C m v fun
    | .ok a, v' => Q a v'
    | .error _, v' => E v'

namespace Runs

variable {C : Contract κ V} {P P' : V → Prop} {Q : α → V → Prop} {E E' : V → Prop}

theorem pure {a : α} (h : ∀ v, P v → Q a v) : Runs C P (pure a : Async κ ε α) Q E :=
  fun v hv => h v hv

theorem throw {e : ε} (h : ∀ v, P v → E v) : Runs C P (throw e : Async κ ε α) Q E :=
  fun v hv => h v hv

theorem perform {k : κ α} (h : ∀ v, P v → C.spec k v Q) :
    Runs C P (perform k : Async κ ε α) Q E :=
  fun v hv => h v hv

theorem bind {m : Async κ ε α} {f : α → Async κ ε β} {Q' : β → V → Prop}
    (hm : Runs C P m Q E) (hf : ∀ a, Runs C (Q a) (f a) Q' E) : Runs C P (m >>= f) Q' E := by
  intro v hv
  refine Future.wp_bind (Future.wp_mono ?_ (hm v hv))
  rintro (e | a) v' h
  · exact h
  · exact hf a v' h

theorem tryCatch {m : Async κ ε α} {handler : ε → Async κ ε α} (hm : Runs C P m Q E)
    (hhandler : ∀ e, Runs C E (handler e) Q E') : Runs C P (tryCatch m handler) Q E' := by
  intro v hv
  refine Future.wp_bind (Future.wp_mono ?_ (hm v hv))
  rintro (e | a) v' h
  · exact hhandler e v' h
  · exact h

theorem ite {c : Prop} [Decidable c] {m m' : Async κ ε α} (hthen : c → Runs C P m Q E)
    (helse : ¬ c → Runs C P m' Q E) : Runs C P (if c then m else m') Q E := by
  by_cases hc : c
  · rw [if_pos hc]
    exact hthen hc
  · rw [if_neg hc]
    exact helse hc

theorem conseq {m : Async κ ε α} {Q' : α → V → Prop} (h : Runs C P m Q E)
    (hP : ∀ v, P' v → P v) (hQ : ∀ a v, Q a v → Q' a v) (hE : ∀ v, E v → E' v) :
    Runs C P' m Q' E' := by
  intro v hv
  refine Future.wp_mono ?_ (h v (hP v hv))
  rintro (e | a) v' hend
  · exact hE v' hend
  · exact hQ a v' hend

end Runs

end Flywheel.Lib
