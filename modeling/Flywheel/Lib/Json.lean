import Mathlib.Data.List.Basic

/-!
# JSON values and what lies where in them

A path is a list of keys and indices; `at?` is the value it leads to. The `shape` of a value is all
of it but what lies below: its scalar, its length or its names. `Replaces site v v'` says that `v'`
is `v` with strings put where `site` says, and nothing else changed: at every other path there is
the same shape, so the same keys, lengths and scalars, or nothing in both. What numbers are is left
open.

A rewriter that goes down one step is covered by `Replaces.mapKey` and `Replaces.mapItems`, two of
them in a row by `Replaces.trans`.
-/

set_option autoImplicit false

namespace Flywheel.Lib

universe u

inductive Json (N : Type u) where
  | null
  | bool (b : Bool)
  | number (n : N)
  | string (text : String)
  | array (items : List (Json N))
  | object (fields : List (String × Json N))

namespace Json

variable {N : Type u}

inductive Step where
  | key (name : String)
  | index (i : Nat)
  deriving DecidableEq

abbrev Path : Type := List Step

/-- `Value::get`. -/
def get? : Json N → Step → Option (Json N)
  | object fields, .key name => fields.lookup name
  | array items, .index i => items[i]?
  | _, _ => none

def at? (v : Json N) : Path → Option (Json N)
  | [] => some v
  | step :: path => (v.get? step).bind fun value => value.at? path

inductive Shape (N : Type u) where
  | null
  | bool (b : Bool)
  | number (n : N)
  | string (text : String)
  | array (length : Nat)
  | object (names : List String)

def shape : Json N → Shape N
  | null => .null
  | bool b => .bool b
  | number n => .number n
  | string text => .string text
  | array items => .array items.length
  | object fields => .object (fields.map Prod.fst)

theorem eq_of_shape {v : Json N} {text : String} (h : v.shape = .string text) : v = string text := by
  cases v with
  | string text' =>
    cases h
    rfl
  | null => cases h
  | bool b => cases h
  | number n => cases h
  | array items => cases h
  | object fields => cases h

/-! ## Changing values one step down -/

def mapFields (f : String → Json N → Json N) : Json N → Json N
  | object fields => object (fields.map fun field => (field.1, f field.1 field.2))
  | v => v

def mapItems (f : Json N → Json N) : Json N → Json N
  | array items => array (items.map f)
  | v => v

/-- Change what is under one key. -/
def mapKey (name : String) (f : Json N → Json N) : Json N → Json N :=
  mapFields fun name' value => if name' = name then f value else value

theorem lookup_map (f : String → Json N → Json N) (fields : List (String × Json N)) (name : String) :
    (fields.map fun field => (field.1, f field.1 field.2)).lookup name =
      (fields.lookup name).map (f name) := by
  induction fields with
  | nil => rfl
  | cons field fields ih =>
    rw [List.map_cons, List.lookup_cons, List.lookup_cons]
    cases hname : name == field.1 with
    | true =>
      rw [beq_iff_eq.mp hname]
      rfl
    | false => exact ih

@[simp] theorem shape_mapFields (f : String → Json N → Json N) (v : Json N) :
    (v.mapFields f).shape = v.shape := by
  cases v with
  | object fields =>
    show Shape.object _ = Shape.object _
    rw [List.map_map]
    rfl
  | null => rfl
  | bool b => rfl
  | number n => rfl
  | string text => rfl
  | array items => rfl

@[simp] theorem shape_mapItems (f : Json N → Json N) (v : Json N) :
    (v.mapItems f).shape = v.shape := by
  cases v with
  | array items =>
    show Shape.array _ = Shape.array _
    rw [List.length_map]
  | null => rfl
  | bool b => rfl
  | number n => rfl
  | string text => rfl
  | object fields => rfl

theorem get?_mapFields_key (f : String → Json N → Json N) (v : Json N) (name : String) :
    (v.mapFields f).get? (.key name) = (v.get? (.key name)).map (f name) := by
  cases v with
  | object fields => exact lookup_map f fields name
  | null => rfl
  | bool b => rfl
  | number n => rfl
  | string text => rfl
  | array items => rfl

theorem get?_mapFields_index (f : String → Json N → Json N) (v : Json N) (i : Nat) :
    (v.mapFields f).get? (.index i) = v.get? (.index i) := by
  cases v <;> rfl

theorem get?_mapItems_index (f : Json N → Json N) (v : Json N) (i : Nat) :
    (v.mapItems f).get? (.index i) = (v.get? (.index i)).map f := by
  cases v with
  | array items => exact List.getElem?_map
  | null => rfl
  | bool b => rfl
  | number n => rfl
  | string text => rfl
  | object fields => rfl

theorem get?_mapItems_key (f : Json N → Json N) (v : Json N) (name : String) :
    (v.mapItems f).get? (.key name) = v.get? (.key name) := by
  cases v <;> rfl

/-! ## Replacing strings -/

/-- `v'` is `v` with the strings of `site` where `site` says. -/
def Replaces (site : Path → String → Prop) (v v' : Json N) : Prop :=
  ∀ path, (∀ text, site path text → v'.at? path = some (string text)) ∧
    ((∀ text, ¬ site path text) → (v'.at? path).map shape = (v.at? path).map shape)

/-- What `site` says of the value behind a step. -/
def Under (v : Json N) (step : Step) (site : Json N → Path → String → Prop) (path : Path)
    (text : String) : Prop :=
  ∃ value rest, v.get? step = some value ∧ path = step :: rest ∧ site value rest text

variable {v v' v'' : Json N} {site site' : Path → String → Prop}

theorem Replaces.of_eq (h : ∀ path text, ¬ site path text) : Replaces site v v :=
  fun path => ⟨fun text hsite => absurd hsite (h path text), fun _ => rfl⟩

theorem Replaces.congr (h : Replaces site v v') (hsite : ∀ path text, site path text ↔ site' path text) :
    Replaces site' v v' := by
  intro path
  refine ⟨fun text htext => (h path).1 text ((hsite path text).mpr htext), fun hnone => ?_⟩
  exact (h path).2 fun text htext => hnone text ((hsite path text).mp htext)

/-- Two rewrites at different places. -/
theorem Replaces.trans (h : Replaces site v v') (h' : Replaces site' v' v'')
    (hapart : ∀ path text text', site path text → ¬ site' path text') :
    Replaces (fun path text => site path text ∨ site' path text) v v'' := by
  intro path
  constructor
  · rintro text (hsite | hsite')
    · have hshape := (h' path).2 fun text' => hapart path text text' hsite
      rw [(h path).1 text hsite] at hshape
      obtain ⟨value, hvalue, htext⟩ := Option.map_eq_some_iff.mp hshape
      rw [hvalue, eq_of_shape htext]
    · exact (h' path).1 text hsite'
  · intro hnone
    rw [(h' path).2 fun text hsite => hnone text (.inr hsite),
      (h path).2 fun text hsite => hnone text (.inl hsite)]

/-- A change behind one step, which leaves the shape and the other steps. -/
theorem Replaces.of_step {step : Step} {f : Json N → Json N} {site : Json N → Path → String → Prop}
    (hshape : v'.shape = v.shape) (hstep : v'.get? step = (v.get? step).map f)
    (hother : ∀ step', step' ≠ step → v'.get? step' = v.get? step')
    (h : ∀ value, v.get? step = some value → Replaces (site value) value (f value)) :
    Replaces (v.Under step site) v v' := by
  intro path
  cases path with
  | nil =>
    refine ⟨?_, fun _ => congrArg some hshape⟩
    rintro text ⟨value, rest, -, hpath, -⟩
    cases hpath
  | cons step' rest =>
    by_cases hsame : step' = step
    · subst hsame
      show (∀ text, _ → (v'.get? step').bind _ = _) ∧ (_ → ((v'.get? step').bind _).map _ = _)
      rw [hstep]
      cases hget : v.get? step' with
      | none =>
        refine ⟨?_, fun _ => by rw [at?, hget]; rfl⟩
        rintro text ⟨value, rest, hvalue, -, -⟩
        cases hget.symm.trans hvalue
      | some value =>
        refine ⟨?_, fun hnone => ?_⟩
        · rintro text ⟨value', rest', hvalue, hpath, htext⟩
          obtain rfl := Option.some.inj (hget.symm.trans hvalue)
          cases hpath
          exact (h value hget rest).1 text htext
        · rw [at?, hget]
          exact (h value hget rest).2 fun text htext =>
            hnone text ⟨value, rest, hget, rfl, htext⟩
    · refine ⟨?_, fun _ => ?_⟩
      · rintro text ⟨value, rest', -, hpath, -⟩
        cases hpath
        exact absurd rfl hsame
      · rw [at?, at?, hother step' hsame]

theorem Replaces.mapKey {name : String} {f : Json N → Json N} {site : Json N → Path → String → Prop}
    (h : ∀ value, v.get? (.key name) = some value → Replaces (site value) value (f value)) :
    Replaces (v.Under (.key name) site) v (v.mapKey name f) := by
  refine Replaces.of_step (shape_mapFields _ v) ?_ ?_ h
  · rw [Json.mapKey, get?_mapFields_key]
    simp
  · intro step hne
    rw [Json.mapKey]
    cases step with
    | key name' =>
      have hname : name' ≠ name := fun heq => hne (congrArg Step.key heq)
      rw [get?_mapFields_key]
      simp [hname]
    | index i => exact get?_mapFields_index _ v i

/-- A change of every item. -/
theorem Replaces.mapItems {f : Json N → Json N} {site : Json N → Path → String → Prop}
    (h : ∀ value, Replaces (site value) value (f value)) :
    Replaces (fun path text => ∃ i, v.Under (.index i) site path text) v (v.mapItems f) := by
  intro path
  cases path with
  | nil =>
    refine ⟨?_, fun _ => congrArg some (shape_mapItems f v)⟩
    rintro text ⟨i, value, rest, -, hpath, -⟩
    cases hpath
  | cons step rest =>
    cases step with
    | key name =>
      refine ⟨?_, fun _ => by rw [at?, at?, get?_mapItems_key]⟩
      rintro text ⟨i, value, rest, -, hpath, -⟩
      cases hpath
    | index i =>
      rw [at?, at?, get?_mapItems_index]
      cases hget : v.get? (.index i) with
      | none =>
        refine ⟨?_, fun _ => rfl⟩
        rintro text ⟨i, value, rest, hvalue, hpath, -⟩
        cases hpath
        cases hget.symm.trans hvalue
      | some value =>
        refine ⟨?_, fun hnone => ?_⟩
        · rintro text ⟨i, value', rest', hvalue, hpath, htext⟩
          cases hpath
          obtain rfl := Option.some.inj (hget.symm.trans hvalue)
          exact (h value rest).1 text htext
        · exact (h value rest).2 fun text htext => hnone text ⟨i, value, rest, hget, rfl, htext⟩

end Json

end Flywheel.Lib
