import Mathlib.Logic.Basic

/-!
# Programs that fail and keep their state

`EStateM ε σ` is the monad of programs that change a state in `σ` and may stop with an
error in `ε`, keeping what they had changed by then. The rules below reason about such
programs without unfolding them.

- `Triple P m Q E`: run from a state in `P`, the program returns a value and a state in
  `Q`, or stops with an error and a state in `E`.
- `Always P m Q`: however it ends, its final state is in `Q`.
- `bind_ok`, `bind_error`: symbolic execution, one bind at a time.
-/

set_option autoImplicit false

namespace Flywheel.Lib

variable {ε σ α β : Type}

/-! ## Symbolic execution -/

theorem bind_ok {m : EStateM ε σ α} {f : α → EStateM ε σ β} {s t : σ} {a : α}
    (h : m s = .ok a t) : (m >>= f) s = f a t := by
  show EStateM.bind m f s = f a t
  simp only [EStateM.bind, h]

theorem bind_error {m : EStateM ε σ α} {f : α → EStateM ε σ β} {s t : σ} {e : ε}
    (h : m s = .error e t) : (m >>= f) s = .error e t := by
  show EStateM.bind m f s = .error e t
  simp only [EStateM.bind, h]

theorem tryCatch_ok {m : EStateM ε σ α} {handler : ε → EStateM ε σ α} {s t : σ} {a : α}
    (h : m s = .ok a t) : (tryCatch m handler : EStateM ε σ α) s = .ok a t := by
  show EStateM.tryCatch m handler s = .ok a t
  delta EStateM.tryCatch
  simp only [h]

theorem tryCatch_error {m : EStateM ε σ α} {handler : ε → EStateM ε σ α} {s t : σ} {e : ε}
    (h : m s = .error e t) : (tryCatch m handler : EStateM ε σ α) s = handler e t := by
  show EStateM.tryCatch m handler s = handler e t
  delta EStateM.tryCatch
  simp only [h]
  rfl

/-- The state a program ends in. -/
def finalState : EStateM.Result ε σ α → σ
  | .ok _ t => t
  | .error _ t => t

/-! ## Triples -/

/-- From a state in `P`, `m` returns within `Q` or stops within `E`. -/
def Triple (P : σ → Prop) (m : EStateM ε σ α) (Q : α → σ → Prop) (E : ε → σ → Prop) : Prop :=
  ∀ s, P s → match m s with
    | .ok a t => Q a t
    | .error e t => E e t

/-- From a state in `P`, `m` ends in a state in `Q`. -/
def Always (P : σ → Prop) (m : EStateM ε σ α) (Q : σ → Prop) : Prop :=
  Triple P m (fun _ => Q) (fun _ => Q)

variable {P P' R : σ → Prop} {Q : α → σ → Prop} {E : ε → σ → Prop}

theorem Triple.pure {a : α} (h : ∀ s, P s → Q a s) : Triple P (pure a : EStateM ε σ α) Q E :=
  fun s hs => h s hs

theorem Triple.throw {e : ε} (h : ∀ s, P s → E e s) :
    Triple P (throw e : EStateM ε σ α) Q E :=
  fun s hs => h s hs

theorem Triple.bind {m : EStateM ε σ α} {f : α → EStateM ε σ β} {Q' : β → σ → Prop}
    (hm : Triple P m Q E) (hf : ∀ a, Triple (Q a) (f a) Q' E) : Triple P (m >>= f) Q' E := by
  intro s hs
  have hfirst := hm s hs
  cases hrun : m s with
  | ok a t =>
    rw [hrun] at hfirst
    rw [bind_ok hrun]
    exact hf a t hfirst
  | error e t =>
    rw [hrun] at hfirst
    rw [bind_error hrun]
    exact hfirst

/-- A handler starts where the program stopped. -/
theorem Triple.tryCatch {m : EStateM ε σ α} {handler : ε → EStateM ε σ α} {E' : ε → σ → Prop}
    (hm : Triple P m Q E) (hhandler : ∀ e, Triple (E e) (handler e) Q E') :
    Triple P (MonadExceptOf.tryCatch m handler : EStateM ε σ α) Q E' := by
  intro s hs
  have hfirst := hm s hs
  cases hrun : m s with
  | ok a t =>
    rw [hrun] at hfirst
    rw [show MonadExceptOf.tryCatch m handler s = .ok a t from tryCatch_ok hrun]
    exact hfirst
  | error e t =>
    rw [hrun] at hfirst
    rw [show MonadExceptOf.tryCatch m handler s = handler e t from tryCatch_error hrun]
    exact hhandler e t hfirst

theorem Triple.ite {c : Prop} [Decidable c] {m m' : EStateM ε σ α} (hthen : c → Triple P m Q E)
    (helse : ¬ c → Triple P m' Q E) : Triple P (if c then m else m') Q E := by
  by_cases hc : c
  · rw [if_pos hc]
    exact hthen hc
  · rw [if_neg hc]
    exact helse hc

theorem Triple.conseq {m : EStateM ε σ α} {Q' : α → σ → Prop} {E' : ε → σ → Prop}
    (h : Triple P m Q E) (hP : ∀ s, P' s → P s) (hQ : ∀ a s, Q a s → Q' a s)
    (hE : ∀ e s, E e s → E' e s) : Triple P' m Q' E' := by
  intro s hs
  have hrun := h s (hP s hs)
  cases hm : m s with
  | ok a t =>
    rw [hm] at hrun
    exact hQ a t hrun
  | error e t =>
    rw [hm] at hrun
    exact hE e t hrun

theorem Triple.ofExcept {x : Except ε α} (hok : ∀ a s, x = .ok a → P s → Q a s)
    (herror : ∀ e s, x = .error e → P s → E e s) :
    Triple P (MonadExcept.ofExcept x : EStateM ε σ α) Q E := by
  cases x with
  | ok a => exact Triple.pure fun s hs => hok a s rfl hs
  | error e => exact Triple.throw fun s hs => herror e s rfl hs

/-- What `Always` says of a run. -/
theorem Always.finalState {m : EStateM ε σ α} (h : Always P m R) {s : σ} (hs : P s) :
    R (finalState (m s)) := by
  have hrun := h s hs
  cases hm : m s with
  | ok a t =>
    rw [hm] at hrun
    exact hrun
  | error e t =>
    rw [hm] at hrun
    exact hrun

end Flywheel.Lib
