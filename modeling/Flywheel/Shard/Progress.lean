import Flywheel.Lib.Progress
import Flywheel.Shard.Deletion
import Mathlib.Data.Finset.Max

/-!
# The shard never gets stuck

An operation takes at most one gate and then at most one stripe, and it holds neither when
it asks for a gate. So waiting only goes down an order (`waits_down`), and of the operations
under way one can always go on (`shard_no_deadlock`), even where a lock serves those that
wait for it in the order they came.

Each operation has only so much left to do (`Task.weight`), except that the removal of a
channel's directory takes as many steps as there are entries in it. So once nothing new
starts, no schedule keeps the shard busy forever, and where a schedule ends every operation
has returned and every lock is free (`shard_drains`): no path of any operation, those that
fail included, leaks a lock.
-/

set_option autoImplicit false

namespace Flywheel

open Lib

variable {ι : Type} {E : Env ι} {i : ι} {e : Event} {s s' : Shared ι} {t t' : Task}
variable {p p' : Shard ι}

/-! ## Locks are held by those who claim them -/

/-- Whoever a lock names is between taking it and giving it back. -/
structure Holding (E : Env ι) (p : Shard ι) : Prop where
  stripe : ∀ j n, p.shared.stripes n = some j → (p.task j).stripe E = some n
  read : ∀ j g, j ∈ (p.shared.locks g).readers → ∃ c, (p.task j).readGate = some (c, g)
  write : ∀ j g, (p.shared.locks g).writer = some j → ∃ c, (p.task j).writeGate = some (c, g)

section Locks

variable [DecidableEq ι]

omit [DecidableEq ι] in
theorem StripeMove.claimed {m m' : Mutexes ι} {k k' : Option Nat} (h : StripeMove i m k m' k')
    (hheld : ∀ n, m n = some i → k = some n) : ∀ n, m' n = some i → k' = some n := by
  intro n hn
  cases h with
  | keep => exact hheld n hn
  | @take l m' hlock =>
    obtain ⟨-, -, hother⟩ := Mutexes.lock_eq_some hlock
    by_cases hnl : n = l
    · rw [hnl]
    · rw [hother n hnl] at hn
      cases hheld n hn
  | @drop l =>
    by_cases hnl : n = l
    · subst hnl
      rw [Mutexes.unlock_self] at hn
      cases hn
    · rw [Mutexes.unlock_of_ne hnl] at hn
      exact absurd (Option.some.inj (hheld n hn)).symm hnl

omit [DecidableEq ι] in
theorem StripeMove.not_others {m m' : Mutexes ι} {k k' : Option Nat}
    (h : StripeMove i m k m' k') {j : ι} (hne : j ≠ i) {n : Nat} (hn : m' n = some j) :
    m n = some j := by
  cases h with
  | keep => exact hn
  | @take l m' hlock =>
    obtain ⟨-, hself, hother⟩ := Mutexes.lock_eq_some hlock
    by_cases hnl : n = l
    · rw [hnl, hself] at hn
      exact absurd (Option.some.inj hn).symm hne
    · rwa [hother n hnl] at hn
  | @drop l =>
    by_cases hnl : n = l
    · subst hnl
      rw [Mutexes.unlock_self] at hn
      cases hn
    · rwa [Mutexes.unlock_of_ne hnl] at hn

theorem GateMove.claimed_read {m m' : Nat → RwLock ι} {r w r' w' : Option (ChannelId × Nat)}
    (h : GateMove i m r w m' r' w') (hheld : ∀ g, i ∈ (m g).readers → ∃ c, r = some (c, g)) :
    ∀ g, i ∈ (m' g).readers → ∃ c, r' = some (c, g) := by
  intro g hg
  cases h with
  | keep => exact hheld g hg
  | @takeRead c g' l hread =>
    by_cases hgg : g = g'
    · exact ⟨c, by rw [hgg]⟩
    · rw [Function.update_of_ne hgg] at hg
      obtain ⟨c', hc'⟩ := hheld g hg
      cases hc'
  | @dropRead c g' =>
    by_cases hgg : g = g'
    · subst hgg
      rw [Function.update_self] at hg
      exact absurd rfl (Finset.ne_of_mem_erase hg)
    · rw [Function.update_of_ne hgg] at hg
      obtain ⟨c', hc'⟩ := hheld g hg
      exact absurd (Prod.mk.inj (Option.some.inj hc')).2.symm hgg
  | @takeWrite c g' l hwrite =>
    by_cases hgg : g = g'
    · subst hgg
      rw [Function.update_self, (RwLock.write_eq_some hwrite).2.2.2] at hg
      cases hg
    · rw [Function.update_of_ne hgg] at hg
      exact hheld g hg
  | @dropWrite c g' =>
    refine hheld g ?_
    by_cases hgg : g = g'
    · subst hgg
      rwa [Function.update_self, RwLock.releaseWrite_readers] at hg
    · rwa [Function.update_of_ne hgg] at hg

theorem GateMove.claimed_write {m m' : Nat → RwLock ι} {r w r' w' : Option (ChannelId × Nat)}
    (h : GateMove i m r w m' r' w') (hheld : ∀ g, (m g).writer = some i → ∃ c, w = some (c, g)) :
    ∀ g, (m' g).writer = some i → ∃ c, w' = some (c, g) := by
  intro g hg
  cases h with
  | keep => exact hheld g hg
  | @takeRead c g' l hread =>
    by_cases hgg : g = g'
    · subst hgg
      rw [Function.update_self, (RwLock.read_eq_some hread).2.1] at hg
      cases hg
    · rw [Function.update_of_ne hgg] at hg
      exact hheld g hg
  | @dropRead c g' =>
    refine hheld g ?_
    by_cases hgg : g = g'
    · subst hgg
      rwa [Function.update_self, RwLock.releaseRead_writer] at hg
    · rwa [Function.update_of_ne hgg] at hg
  | @takeWrite c g' l hwrite =>
    by_cases hgg : g = g'
    · exact ⟨c, by rw [hgg]⟩
    · rw [Function.update_of_ne hgg] at hg
      obtain ⟨c', hc'⟩ := hheld g hg
      cases hc'
  | @dropWrite c g' =>
    by_cases hgg : g = g'
    · subst hgg
      rw [Function.update_self] at hg
      cases hg
    · rw [Function.update_of_ne hgg] at hg
      obtain ⟨c', hc'⟩ := hheld g hg
      exact absurd (Prod.mk.inj (Option.some.inj hc')).2.symm hgg

/-- A step makes nobody but its own thread a holder. -/
theorem GateMove.not_others {m m' : Nat → RwLock ι} {r w r' w' : Option (ChannelId × Nat)}
    (h : GateMove i m r w m' r' w') {j : ι} (hne : j ≠ i) (g : Nat) :
    (j ∈ (m' g).readers → j ∈ (m g).readers) ∧
      ((m' g).writer = some j → (m g).writer = some j) := by
  have hno : ∀ {x : Option ι}, x = some i → x = some j → False := by
    intro x hi hj
    exact hne (Option.some.inj (hj.symm.trans hi))
  cases h with
  | keep => exact ⟨id, id⟩
  | @takeRead c g' l hread =>
    obtain ⟨-, hwriter, hreaders⟩ := RwLock.read_eq_some hread
    by_cases hgg : g = g'
    · subst hgg
      rw [Function.update_self, hreaders, hwriter]
      exact ⟨fun hj => Finset.mem_of_mem_insert_of_ne hj hne, by rintro ⟨⟩⟩
    · rw [Function.update_of_ne hgg]
      exact ⟨id, id⟩
  | @dropRead c g' =>
    by_cases hgg : g = g'
    · subst hgg
      rw [Function.update_self]
      exact ⟨Finset.mem_of_mem_erase, id⟩
    · rw [Function.update_of_ne hgg]
      exact ⟨id, id⟩
  | @takeWrite c g' l hwrite =>
    obtain ⟨-, -, hwriter, hreaders⟩ := RwLock.write_eq_some hwrite
    by_cases hgg : g = g'
    · subst hgg
      rw [Function.update_self, hreaders]
      exact ⟨fun hj => absurd hj (Finset.notMem_empty j), fun hj => (hno hwriter hj).elim⟩
    · rw [Function.update_of_ne hgg]
      exact ⟨id, id⟩
  | @dropWrite c g' =>
    by_cases hgg : g = g'
    · subst hgg
      rw [Function.update_self]
      exact ⟨id, by rintro ⟨⟩⟩
    · rw [Function.update_of_ne hgg]
      exact ⟨id, id⟩

theorem Holding.fire (h : Holding E p) (hfire : p.fire E i e = some p') : Holding E p' := by
  obtain ⟨hstep, hother⟩ := Shard.fire_eq_some hfire
  have hmove := step_move hstep
  refine ⟨fun j n hn => ?_, fun j g hg => ?_, fun j g hg => ?_⟩
  · by_cases hji : j = i
    · subst hji
      exact hmove.stripe.claimed (h.stripe j) n hn
    · rw [hother j hji]
      exact h.stripe j n (hmove.stripe.not_others hji hn)
  · by_cases hji : j = i
    · subst hji
      exact hmove.gate.claimed_read (h.read j) g hg
    · rw [hother j hji]
      exact h.read j g ((hmove.gate.not_others hji g).1 hg)
  · by_cases hji : j = i
    · subst hji
      exact hmove.gate.claimed_write (h.write j) g hg
    · rw [hother j hji]
      exact h.write j g ((hmove.gate.not_others hji g).2 hg)

omit [DecidableEq ι] in
theorem Holding.of_free (hstripes : p.shared.stripes = Mutexes.free)
    (hlocks : p.shared.locks = fun _ => RwLock.free) : Holding E p := by
  refine ⟨fun j n hn => ?_, fun j g hg => ?_, fun j g hg => ?_⟩
  · rw [hstripes] at hn
    cases hn
  · rw [hlocks] at hg
    cases hg
  · rw [hlocks] at hg
    cases hg

/-- In every state of every run a lock that is taken is taken by a task that will give it
back. -/
theorem held_of_reach {G : Shard ι → Action ι → Prop} (h : (shard E).Reach G p) : Holding E p := by
  refine h.invariant ?_ ?_
  · rintro _ ⟨expirySeconds, now, rfl⟩
    exact Holding.of_free rfl rfl
  · intro x a y hx _ hstep
    cases a with
    | thread i e => exact hx.fire hstep
    | crash =>
      obtain rfl : y = x.crash := hstep
      exact Holding.of_free rfl rfl
    | losePower d z =>
      obtain ⟨-, -, rfl⟩ := hstep
      exact Holding.of_free rfl rfl

/-! ## Waiting -/

/-- The lock a task asks for in its next step. -/
inductive Wish where
  | stripe (n : Nat)
  | read (g : Nat)
  | write (g : Nat)
  deriving DecidableEq

/-- The mutex or the readers-writer lock that a wish is for. -/
def Wish.lock : Wish → Nat ⊕ Nat
  | .stripe n => .inl n
  | .read g | .write g => .inr g

omit [DecidableEq ι] in
/-- What a task waits for before its next step. -/
def Task.wish (E : Env ι) : Task → Option Wish
  | .publish r pc =>
    match pc with
    | .fenceLock _ g => some (.read g)
    | .stripe _ => some (.stripe (E.stripe r.channel (r.artifact E)))
    | _ => none
  | .locate c a .stripe => some (.stripe (E.stripe c a))
  | .maintain c candidate _ .stripe => some (.stripe (E.stripe c candidate.artifact))
  | .reconcile c a .stripe => some (.stripe (E.stripe c a))
  | .reference _ _ _ (.fenceLock g) => some (.read g)
  | .patch _ _ _ (.lock g) => some (.read g)
  | .delete _ _ pc =>
    match pc with
    | .lock g => some (.read g)
    | .exclusiveLock g => some (.write g)
    | _ => none
  | _ => none

/-- Thread `j` holds what the wish cannot be granted beside. -/
def Shared.Obstructs (s : Shared ι) (j : ι) : Wish → Prop
  | .stripe n => s.stripes n = some j
  | .read g => (s.locks g).writer = some j
  | .write g => (s.locks g).writer = some j ∨ j ∈ (s.locks g).readers

/-- Thread `i` waits for thread `j`: it holds the lock that `i` asks for, or it asks for the
same lock and came before. -/
def Waits (E : Env ι) (p : Shard ι) (place : ι → Nat) (i j : ι) : Prop :=
  ∃ w, (p.task i).wish E = some w ∧ (p.shared.Obstructs j w ∨
    ∃ w', (p.task j).wish E = some w' ∧ w'.lock = w.lock ∧ place j < place i)

/-- Gates are asked for before stripes. -/
def Wish.rank : Option Wish → Nat
  | none => 0
  | some (.stripe _) => 1
  | some (.read _) | some (.write _) => 2

omit [DecidableEq ι] in
/-- Who holds a stripe asks for nothing. -/
theorem Task.wish_of_stripe {n : Nat} (h : t.stripe E = some n) : t.wish E = none := by
  cases t with
  | publish r pc => cases pc <;> first | rfl | cases h
  | locate c a pc => cases pc <;> first | rfl | cases h
  | maintain c candidate decision pc => cases pc <;> first | rfl | cases h
  | reconcile c a pc => cases pc <;> first | rfl | cases h
  | _ => first | rfl | cases h

omit [DecidableEq ι] in
/-- Who holds a gate asks for a stripe at most. -/
theorem Task.rank_of_gate {c : ChannelId} {g : Nat}
    (h : t.readGate = some (c, g) ∨ t.writeGate = some (c, g)) : Wish.rank (t.wish E) ≤ 1 := by
  have hnone : t.readGate = none → t.writeGate = none → Wish.rank (t.wish E) ≤ 1 := by
    intro hread hwrite
    rw [hread, hwrite] at h
    rcases h with h | h <;> cases h
  cases t with
  | publish r pc => cases pc <;> first | exact hnone rfl rfl | exact Nat.zero_le 1 | exact le_refl 1
  | reference c name op pc => cases pc <;> first | exact hnone rfl rfl | exact Nat.zero_le 1
  | patch c credential expirySeconds pc => cases pc <;> first | exact hnone rfl rfl | exact Nat.zero_le 1
  | delete c credential pc => cases pc <;> first | exact hnone rfl rfl | exact Nat.zero_le 1
  | _ => exact hnone rfl rfl

omit [DecidableEq ι] in
theorem Task.not_over_of_wish {w : Wish} (h : t.wish E = some w) : t.isOver = false := by
  cases t with
  | idle => cases h
  | done o => cases h
  | _ => rfl

omit [DecidableEq ι] in
/-- Waiting goes down: from those that ask for a gate to those that ask for a stripe to
those that ask for nothing, and at one lock to those that came earlier. -/
theorem waits_down (hheld : Holding E p) {place : ι → Nat} {j : ι} (h : Waits E p place i j) :
    (p.task j).isOver = false ∧ Prod.Lex (· < ·) (· < ·)
      (Wish.rank ((p.task j).wish E), place j) (Wish.rank ((p.task i).wish E), place i) := by
  obtain ⟨w, hw, hobstructs | ⟨w', hw', hlock, hplace⟩⟩ := h
  · have hgate : ∀ {c g}, (p.task j).readGate = some (c, g) ∨ (p.task j).writeGate = some (c, g) →
        Wish.rank (some w) = 2 →
        (p.task j).isOver = false ∧ Prod.Lex (· < ·) (· < ·)
          (Wish.rank ((p.task j).wish E), place j) (Wish.rank (some w), place i) := by
      intro c g hg hrank
      refine ⟨?_, .left _ _ ?_⟩
      · cases ht : p.task j <;> rw [ht] at hg <;> first | rfl | (rcases hg with hg | hg <;> cases hg)
      · have := Task.rank_of_gate (E := E) hg
        omega
    rw [hw]
    cases w with
    | stripe n =>
      have hstripe := hheld.stripe j n hobstructs
      refine ⟨?_, .left _ _ ?_⟩
      · cases ht : p.task j <;> rw [ht] at hstripe <;> first | rfl | cases hstripe
      · rw [Task.wish_of_stripe hstripe]
        exact Nat.zero_lt_one
    | read g =>
      obtain ⟨c, hc⟩ := hheld.write j g hobstructs
      exact hgate (.inr hc) rfl
    | write g =>
      obtain hwriter | hreader := hobstructs
      · obtain ⟨c, hc⟩ := hheld.write j g hwriter
        exact hgate (.inr hc) rfl
      · obtain ⟨c, hc⟩ := hheld.read j g hreader
        exact hgate (.inl hc) rfl
  · refine ⟨Task.not_over_of_wish hw', ?_⟩
    rw [hw, hw']
    have hrank : Wish.rank (some w') = Wish.rank (some w) := by
      cases w <;> cases w' <;> first | rfl | cases hlock
    rw [hrank]
    exact .right _ hplace

/-! ## Going on -/

/-- The operation goes on, and does not fail. -/
def Event.goesOn : Event → Bool
  | .run _ | .remove _ => true
  | _ => false

/-- A requeue is in progress only where maintenance decided on one. -/
def Task.Fits : Task → Prop
  | .maintain _ _ decision (.requeueRead) | .maintain _ _ decision (.requeueWrite _) =>
    ∃ new, decision = .requeue new
  | _ => True

theorem fits_of_step (h : Task.step E i e s t = some (s', t')) (ht : t.Fits) : t'.Fits := by
  have hfrom := step_from h
  cases t' with
  | maintain c candidate decision pc' =>
    obtain ⟨-, -, rfl⟩ | ⟨pc, rfl, hfrom⟩ := hfrom
    · trivial
    · cases pc' with
      | requeueRead => exact hfrom.2.2
      | requeueWrite m =>
        obtain ⟨rfl, -⟩ := hfrom
        exact ht
      | _ => trivial
  | _ => trivial

theorem fits_of_reach {G : Shard ι → Action ι → Prop} (h : (shard E).Reach G p) :
    ∀ j, (p.task j).Fits := by
  refine h.invariant (I := fun p => ∀ j, (p.task j).Fits) ?_ ?_
  · rintro _ ⟨expirySeconds, now, rfl⟩ j
    trivial
  · intro x a y hx _ hstep
    have hlost : ∀ t : Task, t.lost.Fits := fun t => by cases t <;> trivial
    cases a with
    | thread i e =>
      obtain ⟨hstep, hother⟩ := Shard.fire_eq_some hstep
      intro j
      by_cases hji : j = i
      · subst hji
        exact fits_of_step hstep (hx j)
      · rw [hother j hji]
        exact hx j
    | crash =>
      obtain rfl : y = x.crash := hstep
      exact fun j => hlost _
    | losePower d z =>
      obtain ⟨-, -, rfl⟩ := hstep
      exact fun j => hlost _

omit [DecidableEq ι] in
theorem Shared.lockStripe_isSome {n : Nat} (h : s.stripes n = none) :
    (s.lockStripe n i).isSome := by
  rw [Shared.lockStripe, Mutexes.lock, if_pos h]
  rfl

theorem Shared.lockRead_isSome {g : Nat} (h : (s.locks g).writer = none) :
    (s.lockRead g i).isSome := by
  rw [Shared.lockRead, RwLock.read, dif_pos h]
  rfl

theorem Shared.lockWrite_isSome {g : Nat} (hw : (s.locks g).writer = none)
    (hr : (s.locks g).readers = ∅) : (s.lockWrite g i).isSome := by
  rw [Shared.lockWrite, RwLock.write, dif_pos ⟨hw, hr⟩]
  rfl

omit [DecidableEq ι] in
/-- While a channel's directory has entries, one of them has nothing below it. -/
theorem exists_removable {d : FsDisk} {c : ChannelId} (h : (channelEntries d c).isEmpty = false) :
    ∃ q, removable d c q = true := by
  obtain ⟨q₀, hq₀⟩ := List.exists_mem_of_ne_nil _ (List.isEmpty_eq_false_iff.mp h)
  -- nothing is below a longest path
  obtain ⟨q, hq, hmax⟩ := Finset.exists_max_image (channelEntries d c).toFinset List.length
    ⟨q₀, List.mem_toFinset.mpr hq₀⟩
  have hnothing : ∀ r ∈ channelEntries d c, r = q ∨ ¬ q <+: r := by
    intro r hr
    by_cases hpre : q <+: r
    · exact .inl (hpre.eq_of_length_le (hmax r (List.mem_toFinset.mpr hr))).symm
    · exact .inr hpre
  refine ⟨q, ?_⟩
  rw [removable, Bool.and_eq_true]
  refine ⟨List.contains_iff_mem.mpr (List.mem_toFinset.mp hq), List.all_eq_true.mpr ?_⟩
  intro r hr
  simpa [← List.isPrefixOf_iff_prefix] using hnothing r hr

/-- A task that nobody obstructs can take its next step without failing. -/
theorem goes_on_of_free (hbusy : t.isOver = false) (hfits : t.Fits)
    (hfree : ∀ w j, t.wish E = some w → ¬ s.Obstructs j w) :
    ∃ e, e.goesOn = true ∧ (Task.step E i e s t).isSome := by
  have hstripe : ∀ {n}, t.wish E = some (.stripe n) → (s.lockStripe n i).isSome := fun hw =>
    Shared.lockStripe_isSome (Option.eq_none_iff_forall_ne_some.mpr fun j hj => hfree _ j hw hj)
  have hread : ∀ {g}, t.wish E = some (.read g) → (s.lockRead g i).isSome := fun hw =>
    Shared.lockRead_isSome (Option.eq_none_iff_forall_ne_some.mpr fun j hj => hfree _ j hw hj)
  have hwrite : ∀ {g}, t.wish E = some (.write g) → (s.lockWrite g i).isSome := fun hw =>
    Shared.lockWrite_isSome
      (Option.eq_none_iff_forall_ne_some.mpr fun j hj => hfree _ j hw (.inl hj))
      (Finset.eq_empty_iff_forall_notMem.mpr fun j hj => hfree _ j hw (.inr hj))
  have hmap : ∀ {β : Type} {x : Option (Shared ι)} {f : Shared ι → β}, x.isSome →
      (x.map f).isSome := fun hx => by rwa [Option.isSome_map]
  cases t with
  | idle | done o => cases hbusy
  | delete c credential pc =>
    cases pc with
    | lock g => exact ⟨.run 0, rfl, hmap (hread rfl)⟩
    | exclusiveLock g => exact ⟨.run 0, rfl, hmap (hwrite rfl)⟩
    | removeDir g =>
      by_cases hempty : (channelEntries s.disk c).isEmpty = true
      · exact ⟨.run 0, rfl, by simp [Task.step, deleteStep, hempty]⟩
      · obtain ⟨q, hq⟩ := exists_removable (Bool.not_eq_true _ ▸ hempty)
        exact ⟨.remove q, rfl, by simp [Task.step, deleteStep, hq]⟩
    | _ => exact ⟨.run 0, rfl, by simp only [Task.step, deleteStep]; (repeat' split) <;> rfl⟩
  | publish r pc =>
    cases pc with
    | fenceLock stagedAt g => exact ⟨.run 0, rfl, hmap (hread rfl)⟩
    | stripe f => exact ⟨.run 0, rfl, hmap (hstripe rfl)⟩
    | _ => exact ⟨.run 0, rfl, by simp only [Task.step, publishStep]; (repeat' split) <;> rfl⟩
  | locate c a pc =>
    cases pc with
    | stripe => exact ⟨.run 0, rfl, hmap (hstripe rfl)⟩
    | _ => exact ⟨.run 0, rfl, by simp only [Task.step, locateStep]; (repeat' split) <;> rfl⟩
  | maintain c candidate decision pc =>
    cases pc with
    | stripe => exact ⟨.run 0, rfl, hmap (hstripe rfl)⟩
    | requeueWrite m =>
      obtain ⟨new, rfl⟩ := hfits
      exact ⟨.run 0, rfl, rfl⟩
    | _ => exact ⟨.run 0, rfl, by simp only [Task.step, maintainStep]; (repeat' split) <;> rfl⟩
  | reconcile c a pc =>
    cases pc with
    | stripe => exact ⟨.run 0, rfl, hmap (hstripe rfl)⟩
    | _ => exact ⟨.run 0, rfl, by simp only [Task.step, reconcileStep]; (repeat' split) <;> rfl⟩
  | reference c name op pc =>
    cases pc with
    | fenceLock g => exact ⟨.run 0, rfl, hmap (hread rfl)⟩
    | _ => exact ⟨.run 0, rfl, by simp only [Task.step, referenceStep]; (repeat' split) <;> rfl⟩
  | register record pc =>
    cases pc <;>
      exact ⟨.run 0, rfl, by simp only [Task.step, registerStep]; (repeat' split) <;> rfl⟩
  | patch c credential expirySeconds pc =>
    cases pc with
    | lock g => exact ⟨.run 0, rfl, hmap (hread rfl)⟩
    | _ => exact ⟨.run 0, rfl, by simp only [Task.step, patchStep]; (repeat' split) <;> rfl⟩

/-- **Nothing deadlocks**: in every reachable state with an operation under way, one of the
operations under way waits for nobody and can take its next step without failing. -/
theorem shard_no_deadlock {G : Shard ι → Action ι → Prop} (h : (shard E).Reach G p)
    (place : ι → Nat) (hbusy : (p.task i).isOver = false) :
    ∃ j e, (p.task j).isOver = false ∧ (∀ k, ¬ Waits E p place j k) ∧ e.goesOn = true ∧
      (p.fire E j e).isSome := by
  have hheld := held_of_reach h
  let rank j := (Wish.rank ((p.task j).wish E), place j)
  have hdown : ∀ j k, (p.task j).isOver = false → Waits E p place j k →
      (p.task k).isOver = false ∧ Prod.Lex (· < ·) (· < ·) (rank k) (rank j) :=
    fun j k _ hwait => waits_down hheld hwait
  obtain ⟨j, hj, hready⟩ := exists_ready (Nat.lt_wfRel.wf.prod_lex Nat.lt_wfRel.wf) hdown hbusy
  obtain ⟨e, he, hstep⟩ := goes_on_of_free (i := j) (s := p.shared) hj (fits_of_reach h j)
    fun w k hw hobstructs => hready k ⟨w, hw, .inl hobstructs⟩
  exact ⟨j, e, hj, hready, he, by rwa [Shard.fire, Pool.fire, Option.isSome_map]⟩

/-- An upload holds the gate of its channel when a deletion asks for it. -/
def uploadBeforeDeletion : List (Action (BitVec 128)) :=
  .thread 0 (.start (.register (sampleRecord 100 .active))) :: steps 0 5 3 ++
  .thread 1 (.start (.publish (sampleUpload sampleChannel .durable .identity))) ::
    steps 1 100 6 ++
  .thread 2 (.start (.delete sampleChannel none)) :: steps 2 110 6

/-- The deletion waits for the upload, and someone can go on. -/
theorem deletion_waits_for_upload : ∃ p : Shard (BitVec 128),
    (shard sampleEnv).Reach (fun _ _ => True) p ∧
      Waits sampleEnv p BitVec.toNat 2 1 ∧ p.fire sampleEnv 2 (.run 120) = none ∧
      ∃ j e, (p.task j).isOver = false ∧ (∀ k, ¬ Waits sampleEnv p BitVec.toNat j k) ∧
        e.goesOn = true ∧ (p.fire sampleEnv j e).isSome := by
  have hrun : (sampleRun (fun _ _ => true) uploadBeforeDeletion).any (fun p =>
      decide (p.task 2 = .delete sampleChannel none (.exclusiveLock 0)) &&
      decide (1 ∈ (p.shared.locks 0).readers) && (p.fire sampleEnv 2 (.run 120)).isNone) =
        true := by
    decide
  obtain ⟨p, hp, hp'⟩ := reach_of_sampleRun (G := fun _ _ => True) _ (fun _ _ _ => trivial) _ _ hrun
  obtain ⟨hp', hblocked⟩ := (Bool.and_eq_true _ _).mp hp'
  obtain ⟨htask, hreader⟩ := (Bool.and_eq_true _ _).mp hp'
  have htask := of_decide_eq_true htask
  refine ⟨p, hp, ⟨.write 0, by rw [htask]; rfl, .inl (.inr (of_decide_eq_true hreader))⟩,
    Option.isNone_iff_eq_none.mp hblocked, ?_⟩
  exact shard_no_deadlock hp BitVec.toNat (i := 2) (by rw [htask]; rfl)

/-! ## What is left to do -/

/-- The steps a publication can still take. -/
def PublishPc.left : PublishPc → Nat
  | .stageDir => 15
  | .stageOpen => 14
  | .stageWrite => 13
  | .stageSync => 12
  | .fenceGate _ => 11
  | .fenceLock _ _ => 10
  | .fenceCheck _ _ => 9
  | .stripe _ => 8
  | .publishDir _ => 7
  | .tryExists _ => 6
  | .removeStaged _ | .rename _ => 5
  | .syncParent _ => 4
  | .commitRead _ => 3
  | .commitWrite _ _ => 2
  | .discard | .discardLocked _ => 1

def LocatePc.left : LocatePc → Nat
  | .read => 5
  | .open _ => 4
  | .stripe => 3
  | .removeRead => 2
  | .removeWrite _ => 1

def MaintainPc.left : MaintainPc → Nat
  | .stripe => 5
  | .preRead => 4
  | .unlink => 3
  | .evictRead | .requeueRead => 2
  | .evictWrite _ | .requeueWrite _ => 1

def ReconcilePc.left : ReconcilePc → Nat
  | .read => 4
  | .stripe => 3
  | .reread => 2
  | .remove => 1

def ReferencePc.left : ReferencePc → Nat
  | .fenceGate => 4
  | .fenceLock _ => 3
  | .fenceCheck _ => 2
  | .write _ => 1

def RegisterPc.left : RegisterPc → Nat
  | .read => 3
  | .write => 2
  | .gate => 1

def PatchPc.left : PatchPc → Nat
  | .authorize => 5
  | .gate => 4
  | .lock _ => 3
  | .recheck _ => 2
  | .store _ _ => 1

/-- The steps a deletion can still take, the entries of the directory apart. -/
def DeletePc.left : DeletePc → Nat
  | .authorize => 11
  | .gate => 10
  | .lock _ => 9
  | .recheck _ => 8
  | .store _ _ | .resumeRead => 7
  | .exclusiveGate => 6
  | .exclusiveLock _ => 5
  | .deleteData _ => 4
  | .removeDir _ => 3
  | .finish _ => 2
  | .forget _ => 1

def Task.left : Task → Nat
  | .publish _ pc => pc.left
  | .locate _ _ pc => pc.left
  | .maintain _ _ _ pc => pc.left
  | .reconcile _ _ pc => pc.left
  | .reference _ _ _ pc => pc.left
  | .register _ pc => pc.left
  | .patch _ _ _ pc => pc.left
  | .delete _ _ pc => pc.left
  | .idle | .done _ => 0

/-- The event starts an operation. -/
def Event.opens : Event → Bool
  | .start _ => true
  | _ => false

omit [DecidableEq ι] in
theorem node_of_removable {d : FsDisk} {c : ChannelId} {q : Path} (h : removable d c q = true) :
    ∃ n, d[q]? = some n := by
  simp only [removable, channelEntries, Bool.and_eq_true, List.contains_iff_mem,
    List.mem_filter] at h
  obtain ⟨⟨q', n⟩, hmem, rfl⟩ := List.mem_map.mp h.1.1
  exact ⟨n, Std.ExtTreeMap.mem_toList_iff_getElem?_eq_some.mp hmem⟩

/-- A step of an operation under way leaves it less to do, or takes an entry from the
directory it removes. -/
theorem left_falls (h : Task.step E i e s t = some (s', t')) (he : e.opens = false) :
    t'.left < t.left ∨ t'.left = t.left ∧ s'.disk.size < s.disk.size := by
  have hfrom := step_from h
  have hidle : t ≠ .idle := by
    rintro rfl
    cases e with
    | start op => cases he
    | _ => cases h
  cases t' with
  | idle => exact hfrom.elim
  | publish r pc' =>
    obtain ⟨ht, -⟩ | ⟨pc, rfl, hfrom⟩ := hfrom
    · exact absurd ht hidle
    · refine .inl ?_
      cases pc' <;> simp only [PublishFrom] at hfrom <;> grind [Task.left, PublishPc.left]
  | locate c a pc' =>
    obtain ⟨ht, -⟩ | ⟨pc, rfl, hfrom⟩ := hfrom
    · exact absurd ht hidle
    · refine .inl ?_
      cases pc' <;> simp only [LocateFrom] at hfrom <;> grind [Task.left, LocatePc.left]
  | maintain c candidate decision pc' =>
    obtain ⟨ht, -⟩ | ⟨pc, rfl, hfrom⟩ := hfrom
    · exact absurd ht hidle
    · refine .inl ?_
      cases pc' <;> simp only [MaintainFrom] at hfrom <;> grind [Task.left, MaintainPc.left]
  | reconcile c a pc' =>
    obtain ⟨ht, -⟩ | ⟨pc, rfl, hfrom⟩ := hfrom
    · exact absurd ht hidle
    · refine .inl ?_
      cases pc' <;> simp only [ReconcileFrom] at hfrom <;> grind [Task.left, ReconcilePc.left]
  | reference c name op pc' =>
    obtain ⟨ht, -⟩ | ⟨pc, rfl, hfrom⟩ := hfrom
    · exact absurd ht hidle
    · refine .inl ?_
      cases pc' <;> simp only [ReferenceFrom] at hfrom <;> grind [Task.left, ReferencePc.left]
  | register record pc' =>
    obtain ⟨ht, -⟩ | ⟨pc, rfl, hfrom⟩ := hfrom
    · exact absurd ht hidle
    · refine .inl ?_
      cases pc' <;> simp only [RegisterFrom] at hfrom <;> grind [Task.left, RegisterPc.left]
  | patch c credential expirySeconds pc' =>
    obtain ⟨ht, -⟩ | ⟨pc, rfl, hfrom⟩ := hfrom
    · exact absurd ht hidle
    · refine .inl ?_
      cases pc' <;> simp only [PatchFrom] at hfrom <;> grind [Task.left, PatchPc.left]
  | delete c credential pc' =>
    obtain ⟨ht, -⟩ | ⟨pc, rfl, hfrom⟩ := hfrom
    · exact absurd ht hidle
    · by_cases hsame : ∃ g q, pc = .removeDir g ∧ pc' = .removeDir g ∧
          removable s.disk c q = true ∧ s' = s.onDisk (·.unlink q)
      · -- one entry of the directory goes
        obtain ⟨g, q, rfl, rfl, hq, rfl⟩ := hsame
        obtain ⟨n, hn⟩ := node_of_removable hq
        exact .inr ⟨rfl, Disk.size_unlink_lt hn⟩
      · refine .inl ?_
        cases pc' <;> simp only [DeleteFrom] at hfrom <;> grind [Task.left, DeletePc.left]
  | done o =>
    refine .inl ?_
    cases t with
    | idle => exact absurd rfl hidle
    | done o' => cases h
    | publish r pc => cases pc <;> exact Nat.succ_pos _
    | locate c a pc => cases pc <;> exact Nat.succ_pos _
    | maintain c candidate decision pc => cases pc <;> exact Nat.succ_pos _
    | reconcile c a pc => cases pc <;> exact Nat.succ_pos _
    | reference c name op pc => cases pc <;> exact Nat.succ_pos _
    | register record pc => cases pc <;> exact Nat.succ_pos _
    | patch c credential expirySeconds pc => cases pc <;> exact Nat.succ_pos _
    | delete c credential pc => cases pc <;> exact Nat.succ_pos _

/-! ## Runs in which nothing starts -/

/-- Steps of operations under way, those that fail included. -/
def Closing (_ : Shard ι) : Action ι → Prop
  | .thread _ e => e.opens = false
  | _ => False

/-- Steps of operations under way that do not fail. -/
def GoingOn (_ : Shard ι) : Action ι → Prop
  | .thread _ e => e.goesOn = true
  | _ => False

/-- No operation is under way and no lock is taken. -/
structure Quiet (p : Shard ι) : Prop where
  finished : ∀ j, (p.task j).isOver = true
  stripes : ∀ n, p.shared.stripes n = none
  gates : ∀ g, (p.shared.locks g).writer = none ∧ (p.shared.locks g).readers = ∅

omit [DecidableEq ι] in
theorem GoingOn.closing {a : Action ι} (h : GoingOn p a) : Closing p a := by
  cases a with
  | thread i e =>
    cases e with
    | run now | remove q => rfl
    | start op | fail => cases h
  | _ => exact h

omit [DecidableEq ι] in
/-- When all operations are over, the locks are free. -/
theorem Holding.quiet (h : Holding E p) (hover : ∀ j, (p.task j).isOver = true) : Quiet p := by
  have hnone : ∀ j, (p.task j).stripe E = none ∧ (p.task j).readGate = none ∧
      (p.task j).writeGate = none := by
    intro j
    have := hover j
    cases ht : p.task j with
    | idle | done o => exact ⟨rfl, rfl, rfl⟩
    | _ =>
      rw [ht] at this
      cases this
  refine ⟨hover, fun n => ?_, fun g => ⟨?_, ?_⟩⟩
  · refine Option.eq_none_iff_forall_ne_some.mpr fun j hj => ?_
    have := h.stripe j n hj
    rw [(hnone j).1] at this
    cases this
  · refine Option.eq_none_iff_forall_ne_some.mpr fun j hj => ?_
    obtain ⟨c, hc⟩ := h.write j g hj
    rw [(hnone j).2.2] at hc
    cases hc
  · refine Finset.eq_empty_iff_forall_notMem.mpr fun j hj => ?_
    obtain ⟨c, hc⟩ := h.read j g hj
    rw [(hnone j).2.1] at hc
    cases hc

/-- In every reachable state only finitely many threads have taken up an operation. -/
theorem exists_busy_list {G : Shard ι → Action ι → Prop} (h : (shard E).Reach G p) :
    ∃ L : List ι, Busy L p := by
  refine h.invariant (I := fun p => ∃ L : List ι, Busy L p) ?_ ?_
  · rintro _ ⟨expirySeconds, now, rfl⟩
    exact ⟨[], Busy.fresh [] expirySeconds now⟩
  · rintro x a y ⟨L, hL⟩ _ hstep
    cases a with
    | thread i e =>
      have hgrown : Busy (i :: L) x := fun j hj => hL j fun hmem => hj (List.mem_cons_of_mem _ hmem)
      exact ⟨i :: L, hgrown.step (by simp [Action.within]) hstep⟩
    | crash => exact ⟨L, hL.step rfl hstep⟩
    | losePower d z => exact ⟨L, hL.step rfl hstep⟩

/-- A thread that takes a step without starting anything has an operation under way. -/
theorem mem_of_closing {L : List ι} (hL : Busy L p) (he : e.opens = false)
    (hfire : p.fire E i e = some p') : i ∈ L := by
  by_contra hi
  have hstep := (Shard.fire_eq_some hfire).1
  rw [hL i hi] at hstep
  cases e with
  | start op => cases he
  | _ => cases hstep

/-- What is left to do of all operations, and the entries on the disk. -/
def Shard.left (L : Finset ι) (p : Shard ι) : Nat × Nat :=
  (p.weight Task.left L, p.shared.disk.size)

theorem Shard.left_falls {L : List ι} (hL : Busy L p) (he : e.opens = false)
    (hfire : p.fire E i e = some p') :
    Prod.Lex (· < ·) (· < ·) (p'.left L.toFinset) (p.left L.toFinset) := by
  have hi : i ∈ L.toFinset := List.mem_toFinset.mpr (mem_of_closing hL he hfire)
  rcases Flywheel.left_falls (Shard.fire_eq_some hfire).1 he with hlt | ⟨heq, hsize⟩
  · exact .left _ _ (Pool.weight_fire_lt hi hfire hlt)
  · rw [Shard.left, Shard.left, Pool.weight_fire_eq hfire heq]
    exact .right _ hsize

/-- **The shard drains**: from every reachable state, once nothing new starts, there is no
run that goes on forever; where a run can go no further every operation has returned and
every lock is free; and some run gets there without a failure. -/
theorem shard_drains {G : Shard ι → Action ι → Prop} (h : (shard E).Reach G p) :
    Acc (fun y x => (shard E).GStep Closing x y) p ∧
    (∀ q, (shard E).Steps Closing p q → (∀ a y, GoingOn q a → ¬ (shard E).step q a y) →
      Quiet q) ∧
    ∃ q, (shard E).Steps GoingOn p q ∧ Quiet q := by
  have hreach : (shard E).Reach (fun _ _ => True) p := h.mono fun _ _ _ => trivial
  obtain ⟨L, hL⟩ := exists_busy_list h
  have hwf := Nat.lt_wfRel.wf.prod_lex Nat.lt_wfRel.wf
  have hfall : ∀ x a y, Busy L x → Closing x a → (shard E).step x a y →
      Prod.Lex (· < ·) (· < ·) (y.left L.toFinset) (x.left L.toFinset) := by
    intro x a y hx ha hstep
    cases a with
    | thread i e => exact Shard.left_falls hx ha hstep
    | _ => cases ha
  have hkeep : ∀ x a y, Busy L x → Closing x a → (shard E).step x a y → Busy L y := by
    intro x a y hx ha hstep
    cases a with
    | thread i e =>
      have hwithin : (Action.thread i e).within L = true :=
        List.contains_iff_mem.mpr (mem_of_closing hx ha hstep)
      exact hx.step hwithin hstep
    | _ => cases ha
  -- as long as an operation is under way, one of them can go on
  have hgo : ∀ x, (shard E).Reach (fun _ _ => True) x → ¬ Quiet x →
      ∃ a y, GoingOn x a ∧ (shard E).step x a y := by
    intro x hx hnot
    have hbusy : ∃ i, (x.task i).isOver = false := by
      by_contra hnone
      push Not at hnone
      exact hnot ((held_of_reach hx).quiet fun j => by simpa using hnone j)
    obtain ⟨i, hi⟩ := hbusy
    obtain ⟨j, e, -, -, he, hfire⟩ := shard_no_deadlock hx (fun _ => 0) hi
    obtain ⟨y, hy⟩ := Option.isSome_iff_exists.mp hfire
    exact ⟨.thread j e, y, he, hy⟩
  refine ⟨System.acc_of_fall hwf hkeep hfall hL, fun q hq hstuck => ?_, ?_⟩
  · by_contra hnot
    obtain ⟨a, y, ha, hstep⟩ := hgo q (hreach.steps (hq.mono fun _ _ _ => trivial)) hnot
    exact hstuck a y ha hstep
  · obtain ⟨q, hq, -, (hquiet : Quiet q)⟩ := System.Steps.exists_rest (G := GoingOn) hwf
      (I := fun x => (shard E).Reach (fun _ _ => True) x ∧ Busy L x)
      (fun x a y hx ha hstep => ⟨hx.1.tail trivial hstep, hkeep x a y hx.2 ha.closing hstep⟩)
      (fun x hx hnot => by
        obtain ⟨a, y, ha, hstep⟩ := hgo x hx.1 hnot
        exact ⟨a, y, ha, hstep, hfall x a y hx.2 ha.closing hstep⟩) ⟨hreach, hL⟩
    exact ⟨q, hq, hquiet⟩

/-- The deletion and the upload it waits for both return. -/
theorem upload_and_deletion_drain : ∃ p q : Shard (BitVec 128),
    (shard sampleEnv).Reach (fun _ _ => True) p ∧ (p.task 1).isOver = false ∧
      (p.task 2).isOver = false ∧ (shard sampleEnv).Steps GoingOn p q ∧ Quiet q := by
  have hrun : (sampleRun (fun _ _ => true) uploadBeforeDeletion).any (fun p =>
      !(p.task 1).isOver && !(p.task 2).isOver) = true := by
    decide
  obtain ⟨p, hp, hp'⟩ := reach_of_sampleRun (G := fun _ _ => True) _ (fun _ _ _ => trivial) _ _ hrun
  simp only [Bool.and_eq_true, Bool.not_eq_true'] at hp'
  obtain ⟨-, -, q, hq, hquiet⟩ := shard_drains hp
  exact ⟨p, q, hp, hp'.1, hp'.2, hq, hquiet⟩

end Locks

end Flywheel
