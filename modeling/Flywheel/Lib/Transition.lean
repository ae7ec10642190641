import Mathlib.Logic.Relation
import Mathlib.Logic.Function.Basic

/-!
# Transition systems, guarded runs and thread pools

- `System σ α`: where runs start and which states an action may lead to.
- `System.Steps G`: runs all of whose actions meet a condition `G` on the action and
  the state it is taken in; `System.Reach G` is reachability by such a run. A
  property of *every* run is the case `G = fun _ _ => True`; a property of the runs that
  avoid a defect puts the defect's condition in `G`.
- `System.Reach.invariant`, `System.Steps.preserves`: the induction over runs,
  packaged once.
- `Pool ι σ τ`: threads over a shared state; one thread at a time takes its next
  indivisible step (`Pool.fire`), which is how interleavings arise.
- `Pool.fire_inv`: the two obligations an invariant of the form "every thread's
  assertion holds" has to meet: the stepping thread establishes its next assertion,
  and every other thread's assertion survives the step.
-/

set_option autoImplicit false

namespace Flywheel.Lib

universe u v w

/-- A labelled transition system. -/
structure System (σ : Type u) (α : Type v) where
  init : σ → Prop
  step : σ → α → σ → Prop

namespace System

variable {σ : Type u} {α : Type v} {S : System σ α} {G G' : σ → α → Prop}

/-- One step by an action that meets `G` in the state it is taken in. -/
def GStep (S : System σ α) (G : σ → α → Prop) (x y : σ) : Prop :=
  ∃ a, G x a ∧ S.step x a y

/-- Runs from one state to another, every action of which meets `G`. -/
def Steps (S : System σ α) (G : σ → α → Prop) : σ → σ → Prop :=
  Relation.ReflTransGen (S.GStep G)

/-- The states that runs meeting `G` reach. -/
def Reach (S : System σ α) (G : σ → α → Prop) (s : σ) : Prop :=
  ∃ s₀, S.init s₀ ∧ S.Steps G s₀ s

theorem Steps.mono (hG : ∀ x a, G x a → G' x a) {s t : σ} (h : S.Steps G s t) :
    S.Steps G' s t := by
  induction h with
  | refl => exact Relation.ReflTransGen.refl
  | tail _ hxy ih =>
    obtain ⟨a, ha, hxy⟩ := hxy
    exact Relation.ReflTransGen.tail ih ⟨a, hG _ a ha, hxy⟩

theorem Reach.mono (hG : ∀ x a, G x a → G' x a) {s : σ} (h : S.Reach G s) :
    S.Reach G' s := by
  obtain ⟨s₀, h₀, hs⟩ := h
  exact ⟨s₀, h₀, hs.mono hG⟩

theorem Reach.steps {s t : σ} (h : S.Reach G s) (ht : S.Steps G s t) : S.Reach G t := by
  obtain ⟨s₀, h₀, hs⟩ := h
  exact ⟨s₀, h₀, Relation.ReflTransGen.trans hs ht⟩

theorem Reach.tail {s t : σ} {a : α} (h : S.Reach G s) (hG : G s a) (ht : S.step s a t) :
    S.Reach G t :=
  h.steps (Relation.ReflTransGen.single ⟨a, hG, ht⟩)

/-- What one step preserves, a run preserves. -/
theorem Steps.preserves {I : σ → Prop}
    (hstep : ∀ x a y, I x → G x a → S.step x a y → I y) {s t : σ} (h : S.Steps G s t)
    (hs : I s) : I t := by
  induction h with
  | refl => exact hs
  | tail _ hxy ih =>
    obtain ⟨a, ha, hxy⟩ := hxy
    exact hstep _ a _ ih ha hxy

/-- A property that holds initially and is preserved by every step holds in every
reachable state. -/
theorem Reach.invariant {I : σ → Prop} (hinit : ∀ s, S.init s → I s)
    (hstep : ∀ x a y, I x → G x a → S.step x a y → I y) {s : σ} (h : S.Reach G s) : I s := by
  obtain ⟨s₀, h₀, hs⟩ := h
  exact hs.preserves hstep (hinit s₀ h₀)

/-- A run that comes to meet a property has a first step that makes it hold. -/
theorem Steps.exists_first {P : σ → Prop} {s t : σ} (h : S.Steps G s t) (hs : ¬ P s) (ht : P t) :
    ∃ x a y, S.Steps G s x ∧ G x a ∧ S.step x a y ∧ ¬ P x ∧ P y ∧ S.Steps G y t := by
  induction h with
  | refl => exact absurd ht hs
  | @tail x y hx hxy ih =>
    by_cases hP : P x
    · obtain ⟨x', a, y', hx', ha, hstep, hnot, hyes, hrest⟩ := ih hP
      exact ⟨x', a, y', hx', ha, hstep, hnot, hyes, hrest.tail hxy⟩
    · obtain ⟨a, ha, hstep⟩ := hxy
      exact ⟨x, a, y, hx, ha, hstep, hP, ht, Relation.ReflTransGen.refl⟩

/-- As `Steps.preserves`, for a property whose step uses that the states are reachable. -/
theorem Steps.preserves_of_reach {I : σ → Prop}
    (hstep : ∀ x a y, S.Reach G x → I x → G' x a → S.step x a y → I y)
    (hG : ∀ x a, G' x a → G x a) {s t : σ} (hr : S.Reach G s) (h : S.Steps G' s t)
    (hs : I s) : I t := by
  have hboth : S.Reach G t ∧ I t := by
    refine h.preserves (I := fun x => S.Reach G x ∧ I x) ?_ ⟨hr, hs⟩
    rintro x a y ⟨hx, hI⟩ ha hxy
    exact ⟨hx.tail (hG x a ha) hxy, hstep x a y hx hI ha hxy⟩
  exact hboth.2

/-- As `Reach.invariant`, for a property whose step uses other invariants. -/
theorem Reach.invariant_of_reach {I : σ → Prop} (hinit : ∀ s, S.init s → I s)
    (hstep : ∀ x a y, S.Reach G x → I x → G x a → S.step x a y → I y) {s : σ}
    (h : S.Reach G s) : I s := by
  obtain ⟨s₀, h₀, hs⟩ := h
  exact hs.preserves_of_reach hstep (fun _ _ => id) ⟨s₀, h₀, Relation.ReflTransGen.refl⟩
    (hinit s₀ h₀)

/-- A run all of whose states meet a second condition is a run of that condition. -/
theorem Reach.mono_of_reach (hG : ∀ x a, S.Reach G x → G x a → G' x a) {s : σ}
    (h : S.Reach G s) : S.Reach G' s := by
  refine h.invariant_of_reach (fun s₀ h₀ => ⟨s₀, h₀, Relation.ReflTransGen.refl⟩) ?_
  intro x a y hx hx' ha hstep
  exact hx'.tail (hG x a hx ha) hstep

/-! ## Schedules

A deterministic system is run by giving its list of actions; `exec` also checks a
decidable condition at each of them. -/

/-- Run a list of actions of a partial step function, checking `ok` at each. -/
def exec (fire : σ → α → Option σ) (ok : σ → α → Bool) : σ → List α → Option σ
  | s, [] => some s
  | s, a :: as => if ok s a then (fire s a).bind fun t => exec fire ok t as else none

theorem exec_cons {fire : σ → α → Option σ} {ok : σ → α → Bool} {a : α} {as : List α} {s t : σ}
    (h : exec fire ok s (a :: as) = some t) :
    ∃ x, ok s a = true ∧ fire s a = some x ∧ exec fire ok x as = some t := by
  rw [exec] at h
  split at h
  · rename_i hok
    obtain ⟨x, hx, hrest⟩ := Option.bind_eq_some_iff.mp h
    exact ⟨x, hok, hx, hrest⟩
  · cases h

theorem exec_append (fire : σ → α → Option σ) (ok : σ → α → Bool) (s : σ) (as bs : List α) :
    exec fire ok s (as ++ bs) = (exec fire ok s as).bind fun t => exec fire ok t bs := by
  induction as generalizing s with
  | nil => rfl
  | cons a as ih =>
    rw [List.cons_append, exec, exec]
    split
    · rw [Option.bind_assoc]
      exact congrArg _ (funext ih)
    · rfl

/-- A schedule that `exec` completes is a run. -/
theorem steps_of_exec {fire : σ → α → Option σ} {ok : σ → α → Bool}
    (hfire : ∀ x a y, fire x a = some y → S.step x a y)
    (hok : ∀ x a, ok x a = true → G x a) {as : List α} {s t : σ}
    (h : exec fire ok s as = some t) : S.Steps G s t := by
  induction as generalizing s with
  | nil =>
    cases h
    exact Relation.ReflTransGen.refl
  | cons a as ih =>
    obtain ⟨x, hoka, hx, hrest⟩ := exec_cons h
    exact Relation.ReflTransGen.head ⟨a, hok s a hoka, hfire s a x hx⟩ (ih hrest)

/-- A schedule from an initial state reaches a state with what is checked at its end. -/
theorem reach_of_exec {fire : σ → α → Option σ} {ok : σ → α → Bool}
    (hfire : ∀ x a y, fire x a = some y → S.step x a y)
    (hok : ∀ x a, ok x a = true → G x a) {as : List α} {s : σ} (hs : S.init s)
    {check : σ → Bool} (h : (exec fire ok s as).any check = true) :
    ∃ t, S.Reach G t ∧ check t = true := by
  obtain ⟨t, ht, hcheck⟩ := (Option.any_eq_true _ _).mp h
  exact ⟨t, ⟨s, hs, steps_of_exec hfire hok ht⟩, hcheck⟩

end System

/-! ## Thread pools -/

/-- Threads with local states in `τ` over a shared state in `σ`. -/
structure Pool (ι : Type u) (σ : Type v) (τ : Type w) where
  shared : σ
  task : ι → τ

namespace Pool

variable {ι : Type u} {σ : Type v} {τ : Type w} {ε : Type*} [DecidableEq ι]
variable {step : ι → ε → σ → τ → Option (σ × τ)}

/-- Thread `i` takes the step that `e` resolves; `none` when it is blocked. -/
def fire (step : ι → ε → σ → τ → Option (σ × τ)) (p : Pool ι σ τ) (i : ι) (e : ε) :
    Option (Pool ι σ τ) :=
  (step i e p.shared (p.task i)).map fun r => ⟨r.1, Function.update p.task i r.2⟩

/-- Only thread `i` moves, and it moves by its own step. -/
theorem fire_eq_some {p p' : Pool ι σ τ} {i : ι} {e : ε} (h : p.fire step i e = some p') :
    step i e p.shared (p.task i) = some (p'.shared, p'.task i) ∧
      ∀ j, j ≠ i → p'.task j = p.task j := by
  obtain ⟨⟨s', t'⟩, hst, rfl⟩ := Option.map_eq_some_iff.mp h
  exact ⟨by simp [hst], fun j hj => Function.update_of_ne hj ..⟩

/-- **Interference freedom.** Assertions about the threads survive a step of thread `i` if
`i` establishes its own next assertion and no other thread's assertion is disturbed. -/
theorem fire_inv {J : σ → ι → τ → Prop} {p p' : Pool ι σ τ} {i : ι} {e : ε}
    (hJ : ∀ j, J p.shared j (p.task j)) (h : p.fire step i e = some p')
    (hlocal : J p'.shared i (p'.task i))
    (hother : ∀ j, j ≠ i → J p.shared j (p.task j) → J p'.shared j (p.task j)) :
    ∀ j, J p'.shared j (p'.task j) := by
  intro j
  by_cases hji : j = i
  · subst hji
    exact hlocal
  · rw [(fire_eq_some h).2 j hji]
    exact hother j hji (hJ j)

end Pool

end Flywheel.Lib
