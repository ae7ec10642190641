import Flywheel.Lib.Disk
import Mathlib.Data.List.Nodup

/-!
# Listing directories, and walks that stop at a limit

`Disk.entries d p` are the names in the directory `p` with what they name. A directory is read in
no particular order; `Order` is any way of ordering the entries of each directory.

`collect limit visit` goes through a list and lets each element add to what was found, until
`limit` things are. If each element adds items of its own as far as the limit allows, so does
the whole walk (`collect_eq_take`); the rule nests, so it serves a walk of any depth.
-/

set_option autoImplicit false

namespace Flywheel.Lib

open Std

universe u v

/-! ## Directories -/

namespace Disk

variable {γ : Type u} {β : Type v} [Ord γ] [TransOrd γ] [LawfulEqOrd γ] [DecidableEq γ]

/-- The last component of `q` and what `q` names, if it is in the directory `p`. -/
def entryIn (p : List γ) (entry : List γ × Node β) : Option (γ × Kind β) :=
  if entry.1.dropLast = p then entry.1.getLast?.map (·, entry.2.kind) else none

/-- What is in the directory `p`. -/
def entries (d : Disk γ β) (p : List γ) : List (γ × Kind β) := d.toList.filterMap (entryIn p)

omit [Ord γ] [TransOrd γ] [LawfulEqOrd γ] in
theorem entryIn_eq_some {p q : List γ} {n : Node β} {name : γ} {kind : Kind β} :
    entryIn p (q, n) = some (name, kind) ↔ q = p ++ [name] ∧ n.kind = kind := by
  unfold entryIn
  constructor
  · intro h
    split at h
    · rename_i hp
      obtain ⟨last, hlast, heq⟩ := Option.map_eq_some_iff.mp h
      obtain ⟨rfl, rfl⟩ := Prod.mk.inj heq
      refine ⟨?_, rfl⟩
      rw [← hp]
      exact (List.dropLast_append_getLast? last hlast).symm
    · cases h
  · rintro ⟨rfl, rfl⟩
    simp

theorem mem_entries {d : Disk γ β} {p : List γ} {name : γ} {kind : Kind β} :
    (name, kind) ∈ d.entries p ↔ d.kindAt (p ++ [name]) = some kind := by
  rw [entries, List.mem_filterMap, kindAt, Option.map_eq_some_iff]
  constructor
  · rintro ⟨⟨q, n⟩, hmem, hentry⟩
    obtain ⟨rfl, rfl⟩ := entryIn_eq_some.mp hentry
    exact ⟨n, ExtTreeMap.mem_toList_iff_getElem?_eq_some.mp hmem, rfl⟩
  · rintro ⟨n, hn, rfl⟩
    exact ⟨(p ++ [name], n), ExtTreeMap.mem_toList_iff_getElem?_eq_some.mpr hn,
      entryIn_eq_some.mpr ⟨rfl, rfl⟩⟩

/-- A directory lists each name once. -/
theorem nodup_names (d : Disk γ β) (p : List γ) : ((d.entries p).map (·.1)).Nodup := by
  rw [List.Nodup, List.pairwise_map, entries, List.pairwise_filterMap]
  refine d.distinct_keys_toList.imp ?_
  rintro ⟨q, n⟩ ⟨q', n'⟩ hne ⟨name, kind⟩ hentry ⟨name', kind'⟩ hentry' hname
  obtain ⟨rfl, -⟩ := entryIn_eq_some.mp hentry
  obtain ⟨rfl, -⟩ := entryIn_eq_some.mp hentry'
  obtain rfl : name = name' := hname
  exact hne ReflCmp.compare_self

end Disk

/-- An order in which the entries of each directory are read. -/
structure Order (γ : Type u) (β : Type v) where
  sort : List γ → List (γ × Kind β) → List (γ × Kind β)
  perm : ∀ p entries, (sort p entries).Perm entries

instance {γ : Type u} {β : Type v} : Inhabited (Order γ β) :=
  ⟨⟨fun _ entries => entries, fun _ _ => List.Perm.refl _⟩⟩

/-! ## Walks -/

section Collect

variable {ε α β : Type}

/-- Visit one element after the other until `limit` things were found. -/
def collect (limit : Nat) (visit : α → List β → Except ε (List β)) :
    List α → List β → Except ε (List β)
  | [], found => .ok found
  | x :: xs, found =>
    if found.length ≥ limit then .ok found
    else
      match visit x found with
      | .ok found => collect limit visit xs found
      | .error e => .error e

theorem take_take_append (limit : Nat) (l r : List β) :
    (l.take limit ++ r).take limit = (l ++ r).take limit := by
  rw [List.take_append, List.take_append, List.take_take, Nat.min_self, List.length_take]
  rcases Nat.le_total limit l.length with h | h
  · simp [h]
  · simp [Nat.min_eq_right h]

/-- If every element adds its items as far as the limit allows, so does the walk. -/
theorem collect_eq_take {limit : Nat} {visit : α → List β → Except ε (List β)} {items : α → List β}
    {xs : List α}
    (hvisit : ∀ x ∈ xs, ∀ found : List β, found.length < limit →
      visit x found = .ok ((found ++ items x).take limit))
    {found : List β} (hfound : found.length ≤ limit) :
    collect limit visit xs found = .ok ((found ++ xs.flatMap items).take limit) := by
  induction xs generalizing found with
  | nil => simp [collect, List.take_of_length_le hfound]
  | cons x xs ih =>
    rw [collect]
    split
    · rename_i hfull
      rw [List.take_append_of_le_length hfull, List.take_of_length_le hfound]
    · rename_i hroom
      rw [hvisit x (by simp) found (Nat.lt_of_not_le hroom)]
      dsimp only
      rw [ih (fun y hy => hvisit y (List.mem_cons_of_mem x hy)) (List.length_take_le _ _),
        take_take_append, List.flatMap_cons, List.append_assoc]

/-- Lists that remember which element they come from do not overlap. -/
theorem nodup_flatMap_of_key {κ : Type} {key : α → κ} {origin : β → κ} {items : α → List β}
    {xs : List α} (hkeys : (xs.map key).Nodup) (hitems : ∀ x ∈ xs, (items x).Nodup)
    (horigin : ∀ x ∈ xs, ∀ y ∈ items x, origin y = key x) : (xs.flatMap items).Nodup := by
  rw [List.nodup_flatMap]
  refine ⟨hitems, ?_⟩
  have hne : xs.Pairwise fun x x' => key x ≠ key x' := List.pairwise_map.mp hkeys
  refine hne.imp_of_mem ?_
  intro x x' hx hx' hkey y hy hy'
  exact hkey ((horigin x hx y hy).symm.trans (horigin x' hx' y hy'))

end Collect

end Flywheel.Lib
