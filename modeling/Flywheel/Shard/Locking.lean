import Flywheel.Shard.Moves

/-!
# Who holds the locks

A task's program counter says which stripe it holds and on which gate it holds the shared
or the exclusive side. `Locked` says that the locks agree, and it holds in every state of
every run: of the tasks that claim one stripe there is only one, and nobody holds a gate's
shared side while another holds the exclusive one.
-/

set_option autoImplicit false

namespace Flywheel

open Lib

variable {ι : Type} [DecidableEq ι] {E : Env ι} {i : ι} {e : Event}

/-! ## The invariant -/

/-- The locks agree with what the tasks hold. -/
structure Locked (E : Env ι) (p : Shard ι) : Prop where
  stripe : ∀ j k, (p.task j).stripe E = some k → p.shared.stripes k = some j
  read : ∀ j c g, (p.task j).readGate = some (c, g) → j ∈ (p.shared.locks g).readers
  write : ∀ j c g, (p.task j).writeGate = some (c, g) → (p.shared.locks g).writer = some j

omit [DecidableEq ι] in
/-- A stripe has one holder. -/
theorem Locked.eq_of_stripe {p : Shard ι} (h : Locked E p) {j j' : ι} {k : Nat}
    (hj : (p.task j).stripe E = some k) (hj' : (p.task j').stripe E = some k) : j = j' :=
  Option.some.inj ((h.stripe j k hj).symm.trans (h.stripe j' k hj'))

omit [DecidableEq ι] in
/-- Nobody holds the shared side of a gate while another holds the exclusive side. -/
theorem Locked.gate_excl {p : Shard ι} (h : Locked E p) {j j' : ι} {c c' : ChannelId} {g : Nat}
    (hj : (p.task j).readGate = some (c, g)) (hj' : (p.task j').writeGate = some (c', g)) :
    False :=
  RwLock.not_mem_of_writer (h.write j' c' g hj') (h.read j c g hj)

omit [DecidableEq ι] in
/-- The mutex a step leaves thread `i` with is `i`'s. -/
theorem StripeMove.own {m m' : Mutexes ι} {k k' : Option Nat} (h : StripeMove i m k m' k')
    (hown : ∀ n, k = some n → m n = some i) : ∀ n, k' = some n → m' n = some i := by
  cases h with
  | keep => exact hown
  | take hlock =>
    rintro n ⟨⟩
    exact (Mutexes.lock_eq_some hlock).2.1
  | drop => rintro n ⟨⟩

omit [DecidableEq ι] in
/-- What another thread holds, it keeps. -/
theorem StripeMove.keeps {m m' : Mutexes ι} {k k' : Option Nat} (h : StripeMove i m k m' k')
    (hown : ∀ n, k = some n → m n = some i) {j : ι} (hne : j ≠ i) {n : Nat}
    (hj : m n = some j) : m' n = some j := by
  cases h with
  | keep => exact hj
  | take hlock => exact Mutexes.lock_keeps hlock hj
  | drop => exact Mutexes.unlock_keeps (hown _ rfl) hj hne

theorem GateMove.own_read {m m' : Nat → RwLock ι} {r w r' w' : Option (ChannelId × Nat)}
    (h : GateMove i m r w m' r' w') (hown : ∀ c g, r = some (c, g) → i ∈ (m g).readers) :
    ∀ c g, r' = some (c, g) → i ∈ (m' g).readers := by
  cases h with
  | keep => exact hown
  | takeRead hread =>
    rintro c g ⟨⟩
    rw [Function.update_self, (RwLock.read_eq_some hread).2.2]
    exact Finset.mem_insert_self ..
  | dropRead | takeWrite | dropWrite => rintro c g ⟨⟩

theorem GateMove.own_write {m m' : Nat → RwLock ι} {r w r' w' : Option (ChannelId × Nat)}
    (h : GateMove i m r w m' r' w') (hown : ∀ c g, w = some (c, g) → (m g).writer = some i) :
    ∀ c g, w' = some (c, g) → (m' g).writer = some i := by
  cases h with
  | keep => exact hown
  | takeWrite hwrite =>
    rintro c g ⟨⟩
    rw [Function.update_self]
    exact (RwLock.write_eq_some hwrite).2.2.1
  | takeRead | dropRead | dropWrite => rintro c g ⟨⟩

theorem GateMove.keeps_read {m m' : Nat → RwLock ι} {r w r' w' : Option (ChannelId × Nat)}
    (h : GateMove i m r w m' r' w') {j : ι} (hne : j ≠ i) {g : Nat} (hj : j ∈ (m g).readers) :
    j ∈ (m' g).readers := by
  cases h with
  | keep => exact hj
  | @takeRead c g' l hread =>
    by_cases hg : g = g'
    · subst hg
      rw [Function.update_self, (RwLock.read_eq_some hread).2.2]
      exact Finset.mem_insert_of_mem hj
    · rwa [Function.update_of_ne hg]
  | @dropRead c g' =>
    by_cases hg : g = g'
    · subst hg
      rw [Function.update_self]
      exact RwLock.mem_releaseRead hj hne
    · rwa [Function.update_of_ne hg]
  | @takeWrite c g' l hwrite =>
    by_cases hg : g = g'
    · subst hg
      rw [(RwLock.write_eq_some hwrite).2.1] at hj
      cases hj
    · rwa [Function.update_of_ne hg]
  | @dropWrite c g' =>
    by_cases hg : g = g'
    · subst hg
      rwa [Function.update_self, RwLock.releaseWrite_readers]
    · rwa [Function.update_of_ne hg]

theorem GateMove.keeps_write {m m' : Nat → RwLock ι} {r w r' w' : Option (ChannelId × Nat)}
    (h : GateMove i m r w m' r' w') (hown : ∀ c g, w = some (c, g) → (m g).writer = some i)
    {j : ι} (hne : j ≠ i) {g : Nat} (hj : (m g).writer = some j) : (m' g).writer = some j := by
  cases h with
  | keep => exact hj
  | @takeRead c g' l hread =>
    by_cases hg : g = g'
    · subst hg
      rw [(RwLock.read_eq_some hread).1] at hj
      cases hj
    · rwa [Function.update_of_ne hg]
  | @dropRead c g' =>
    by_cases hg : g = g'
    · subst hg
      rwa [Function.update_self, RwLock.releaseRead_writer]
    · rwa [Function.update_of_ne hg]
  | @takeWrite c g' l hwrite =>
    by_cases hg : g = g'
    · subst hg
      rw [(RwLock.write_eq_some hwrite).1] at hj
      cases hj
    · rwa [Function.update_of_ne hg]
  | @dropWrite c g' =>
    by_cases hg : g = g'
    · subst hg
      rw [hown c g rfl] at hj
      exact absurd (Option.some.inj hj).symm hne
    · rwa [Function.update_of_ne hg]

theorem Locked.fire {p p' : Shard ι} (h : Locked E p) (hfire : p.fire E i e = some p') :
    Locked E p' := by
  have hmove := step_move (Shard.fire_eq_some hfire).1
  refine ⟨?_, ?_, ?_⟩
  · refine Pool.fire_inv (J := fun s j t => ∀ k, t.stripe E = some k → s.stripes k = some j)
      h.stripe hfire (hmove.stripe.own (h.stripe i)) ?_
    exact fun j hji hj k hk => hmove.stripe.keeps (h.stripe i) hji (hj k hk)
  · refine Pool.fire_inv (J := fun s j t => ∀ c g, t.readGate = some (c, g) →
      j ∈ (s.locks g).readers) h.read hfire (hmove.gate.own_read (h.read i)) ?_
    exact fun j hji hj c g hg => hmove.gate.keeps_read hji (hj c g hg)
  · refine Pool.fire_inv (J := fun s j t => ∀ c g, t.writeGate = some (c, g) →
      (s.locks g).writer = some j) h.write hfire (hmove.gate.own_write (h.write i)) ?_
    exact fun j hji hj c g hg => hmove.gate.keeps_write (h.write i) hji (hj c g hg)

omit [DecidableEq ι] in
theorem Task.lost_holds_nothing (E : Env ι) (t : Task) :
    t.lost.stripe E = none ∧ t.lost.readGate = none ∧ t.lost.writeGate = none := by
  cases t <;> exact ⟨rfl, rfl, rfl⟩

omit [DecidableEq ι] in
/-- Threads that hold nothing agree with any locks. -/
theorem Locked.of_free {p : Shard ι} (h : ∀ j, (p.task j).stripe E = none ∧
    (p.task j).readGate = none ∧ (p.task j).writeGate = none) : Locked E p := by
  refine ⟨fun j k hk => ?_, fun j c g hg => ?_, fun j c g hg => ?_⟩
  · rw [(h j).1] at hk
    cases hk
  · rw [(h j).2.1] at hg
    cases hg
  · rw [(h j).2.2] at hg
    cases hg

/-- In every state of every run the locks agree with what the tasks hold. -/
theorem locked_of_reach {G : Shard ι → Action ι → Prop} {p : Shard ι}
    (h : (shard E).Reach G p) : Locked E p := by
  refine h.invariant ?_ ?_
  · rintro _ ⟨expirySeconds, now, rfl⟩
    exact Locked.of_free fun _ => ⟨rfl, rfl, rfl⟩
  · intro x a y hx _ hstep
    cases a with
    | thread i e => exact hx.fire hstep
    | crash =>
      obtain rfl : y = x.crash := hstep
      exact Locked.of_free fun j => Task.lost_holds_nothing E (x.task j)
    | losePower d z =>
      obtain ⟨-, -, rfl⟩ := hstep
      exact Locked.of_free fun j => Task.lost_holds_nothing E (x.task j)

end Flywheel
