import Flywheel.Channel
import Flywheel.Lib.Locks
import Flywheel.Lib.Transition

/-!
# Request coalescing (`ProxyService::fetch_url`, `RequestFlight`)

Concurrent fetches of one package coordinate are serialized by a mutex that the `requests`
map hands out under the key `"{channel}:{reference}"`. The map's entry is made by the first
call and removed by the `Drop` of `RequestFlight` when the mutex has at most two strong
references, the map's and the dropping call's.

A call is a program counter between two of its indivisible actions: the look at the cache,
the map lookup, the lock, the permit, and the four drops at the end of its scope in reverse
order of declaration (permit, mutex guard, flight, clone). It may leave at every await, by
an answer, an error or a cancellation, and then runs the drops of what it holds.

- `single_flight`: one call at a time is behind the lock of a coordinate.
- `entry_removed`: no entry outlives its calls, as long as the last flight of a key does not
  drop while another call is between its flight drop and its clone drop (`DropsAlone`).
  Without that the entry stays (`entry_leaks`).

Both rest on `Coalesced`: a call whose flight has not dropped holds the lock that the map
has for its key, and the strong references of a lock are the map and the calls holding it.
-/

set_option autoImplicit false

namespace Flywheel.Flight

open Lib

/-! ## The map -/

/-- `format!("{channel}:{reference}")`. -/
def requestKey (c : ChannelId) (reference : Bytes) : Bytes := c.asKey ++ 58 :: reference

/-- Two coordinates never share a lock. -/
theorem requestKey_inj {c c' : ChannelId} {r r' : Bytes} :
    requestKey c r = requestKey c' r' ↔ c = c' ∧ r = r' := by
  constructor
  · intro h
    obtain ⟨hc, hr⟩ := List.append_inj h (by simp)
    exact ⟨ChannelId.asKey_inj hc, (List.cons.inj hr).2⟩
  · rintro ⟨rfl, rfl⟩
    rfl

/-- What the calls share. A lock is named by its allocation; `none` owns the map's reference
to it and `some i` the reference of call `i`. -/
structure Requests (ι : Type) where
  entries : Bytes → Option Nat
  nextLock : Nat
  owners : RefCounts (Option ι)
  mutexes : Mutexes ι
  /-- The free permits of `concurrency`. -/
  permits : Nat

namespace Requests

variable {ι : Type}

def new (ι : Type) (permits : Nat) : Requests ι where
  entries := fun _ => none
  nextLock := 0
  owners := .none
  mutexes := .free
  permits := permits

variable [DecidableEq ι] (s : Requests ι)

/-- `entry(key).or_insert_with(..)` and the clone of its value, under one shard lock of the
map. -/
def lookup (key : Bytes) (i : ι) : Requests ι × Nat :=
  match s.entries key with
  | some l => ({ s with owners := s.owners.clone l (some i) }, l)
  | none =>
    ({ s with
      entries := Function.update s.entries key (some s.nextLock)
      nextLock := s.nextLock + 1
      owners := (s.owners.clone s.nextLock none).clone s.nextLock (some i) }, s.nextLock)

/-- `RequestFlight::drop`: `remove_if` the strong count is at most two. -/
def removeIf (key : Bytes) : Requests ι :=
  match s.entries key with
  | some l =>
    if s.owners.strongCount l ≤ 2 then
      { s with
        entries := Function.update s.entries key none
        owners := s.owners.drop l none }
    else s
  | none => s

/-- The drop of a call's clone of the lock. -/
def dropClone (l : Nat) (i : ι) : Requests ι := { s with owners := s.owners.drop l (some i) }

variable {s} {key key' : Bytes} {i j : ι} {l m : Nat}

@[simp] theorem lookup_mutexes : (s.lookup key i).1.mutexes = s.mutexes := by
  unfold lookup
  split <;> rfl

theorem lookup_entry_self : (s.lookup key i).1.entries key = some (s.lookup key i).2 := by
  unfold lookup
  split
  · assumption
  · exact Function.update_self ..

/-- A lookup keeps the entries there are. -/
theorem lookup_entry (h : s.entries key' = some l) : (s.lookup key i).1.entries key' = some l := by
  unfold lookup
  split
  · exact h
  · rename_i hnone
    have hne : key' ≠ key := by
      rintro rfl
      rw [hnone] at h
      cases h
    exact (Function.update_of_ne hne ..).trans h

/-- Of the calls, a lookup gives a reference to its caller only. -/
theorem mem_lookup_owners :
    some j ∈ (s.lookup key i).1.owners m ↔
      (m = (s.lookup key i).2 ∧ j = i) ∨ some j ∈ s.owners m := by
  unfold lookup
  split <;> simp

/-- A flight drop removes the entry with the map's reference, or leaves everything. -/
theorem removeIf_cases (h : s.entries key = some l) :
    (s.owners.strongCount l ≤ 2 ∧ s.removeIf key = { s with
      entries := Function.update s.entries key none
      owners := s.owners.drop l none }) ∨
    (¬ s.owners.strongCount l ≤ 2 ∧ s.removeIf key = s) := by
  rw [removeIf, h]
  by_cases hcount : s.owners.strongCount l ≤ 2
  · exact .inl ⟨hcount, if_pos hcount⟩
  · exact .inr ⟨hcount, if_neg hcount⟩

end Requests

/-! ## Calls -/

/-- Where a call of `fetch_url` is; `l` is the lock it has cloned. -/
inductive Stage where
  | resolve
  | entry
  | lock (l : Nat)
  | reread (l : Nat)
  | acquire (l : Nat)
  | upstream (l : Nat)
  | dropPermit (l : Nat)
  | dropGuard (l : Nat)
  | dropFlight (l : Nat)
  | dropClone (l : Nat)
  | returned
  deriving DecidableEq

inductive Call where
  | idle
  | fetch (c : ChannelId) (reference : Bytes) (stage : Stage)
  deriving DecidableEq

/-- What resolves a step. A call leaves an await with its answer, with an error, or because
its future is dropped. -/
inductive Event where
  | start (c : ChannelId) (reference : Bytes)
  | next
  | leave
  deriving DecidableEq

section Step

variable {ι : Type} [DecidableEq ι] (i : ι)

def fetchStep (c : ChannelId) (reference : Bytes) :
    Stage → Event → Requests ι → Option (Requests ι × Stage)
  | .resolve, .next, s => some (s, .entry)
  | .resolve, .leave, s => some (s, .returned)
  | .entry, .next, s =>
    some ((s.lookup (requestKey c reference) i).1, .lock (s.lookup (requestKey c reference) i).2)
  | .lock l, .next, s => (s.mutexes.lock l i).map fun m => ({ s with mutexes := m }, .reread l)
  -- cancelled while waiting: there is no guard yet
  | .lock l, .leave, s => some (s, .dropFlight l)
  | .reread l, .next, s => some (s, .acquire l)
  | .reread l, .leave, s => some (s, .dropGuard l)
  -- `try_acquire_owned` fails with `ProxyError::Busy`
  | .acquire l, .next, s =>
    if 0 < s.permits then some ({ s with permits := s.permits - 1 }, .upstream l)
    else some (s, .dropGuard l)
  | .upstream l, .leave, s => some (s, .dropPermit l)
  | .dropPermit l, .next, s => some ({ s with permits := s.permits + 1 }, .dropGuard l)
  | .dropGuard l, .next, s => some ({ s with mutexes := s.mutexes.unlock l }, .dropFlight l)
  | .dropFlight l, .next, s => some (s.removeIf (requestKey c reference), .dropClone l)
  | .dropClone l, .next, s => some (s.dropClone l i, .returned)
  | _, _, _ => none

def Call.step (e : Event) (s : Requests ι) : Call → Option (Requests ι × Call)
  | .idle =>
    match e with
    | .start c reference => some (s, .fetch c reference .resolve)
    | _ => none
  | .fetch c reference stage =>
    (fetchStep i c reference stage e s).map fun r => (r.1, .fetch c reference r.2)

end Step

abbrev Calls (ι : Type) : Type := Pool ι (Requests ι) Call

/-- Any number of calls over one map. -/
def Calls.new (ι : Type) (permits : Nat) : Calls ι := ⟨Requests.new ι permits, fun _ => .idle⟩

structure Action (ι : Type) where
  thread : ι
  event : Event

def Calls.fire {ι : Type} [DecidableEq ι] (p : Calls ι) (a : Action ι) : Option (Calls ι) :=
  Pool.fire (fun i e s t => Call.step i e s t) p a.thread a.event

def calls (ι : Type) [DecidableEq ι] : System (Calls ι) (Action ι) where
  init p := ∃ permits, p = Calls.new ι permits
  step p a p' := p.fire a = some p'

/-! ## What a call holds -/

/-- The lock whose guard a call holds. -/
def Stage.guard : Stage → Option Nat
  | .reread l | .acquire l | .upstream l | .dropPermit l | .dropGuard l => some l
  | _ => none

/-- The lock of a call whose flight has not dropped. -/
def Stage.flight : Stage → Option Nat
  | .lock l | .reread l | .acquire l | .upstream l | .dropPermit l | .dropGuard l
  | .dropFlight l => some l
  | _ => none

/-- The lock a call has a clone of. -/
def Stage.clone : Stage → Option Nat
  | .lock l | .reread l | .acquire l | .upstream l | .dropPermit l | .dropGuard l
  | .dropFlight l | .dropClone l => some l
  | _ => none

namespace Call

/-- The coordinate and the lock of a call behind the coalescing lock. -/
def guard : Call → Option (Bytes × Nat)
  | .fetch c reference stage => stage.guard.map (requestKey c reference, ·)
  | .idle => none

/-- The coordinate and the lock of a call whose flight has not dropped. -/
def flight : Call → Option (Bytes × Nat)
  | .fetch c reference stage => stage.flight.map (requestKey c reference, ·)
  | .idle => none

def clone : Call → Option Nat
  | .fetch _ _ stage => stage.clone
  | .idle => none

/-- The lock of a call that has dropped its flight and not yet its clone. -/
def lingers : Call → Option Nat
  | .fetch _ _ (.dropClone l) => some l
  | _ => none

/-- The coordinate of a call that has not finished all of its drops. -/
def live : Call → Option Bytes
  | .fetch _ _ .returned => none
  | .fetch c reference _ => some (requestKey c reference)
  | .idle => none

theorem clone_of_flight {t : Call} {k : Bytes} {l : Nat} (h : t.flight = some (k, l)) :
    t.clone = some l := by
  cases t with
  | idle => cases h
  | fetch c reference stage => cases stage <;> cases h <;> rfl

theorem flight_of_guard {t : Call} {k : Bytes} {l : Nat} (h : t.guard = some (k, l)) :
    t.flight = some (k, l) := by
  cases t with
  | idle => cases h
  | fetch c reference stage => cases stage <;> cases h <;> rfl

theorem live_of_flight {t : Call} {k : Bytes} {l : Nat} (h : t.flight = some (k, l)) :
    t.live = some k := by
  cases t with
  | idle => cases h
  | fetch c reference stage => cases stage <;> cases h <;> rfl

theorem lingers_of_clone {t : Call} {l : Nat} (hclone : t.clone = some l)
    (h : t.flight = none) : t.lingers = some l := by
  cases t with
  | idle => cases hclone
  | fetch c reference stage => cases stage <;> cases hclone <;> first | rfl | cases h

theorem clone_of_lingers {t : Call} {l : Nat} (h : t.lingers = some l) : t.clone = some l := by
  cases t with
  | idle => cases h
  | fetch c reference stage =>
    cases stage <;> cases h
    rfl

theorem flight_eq_none {t : Call} (h : t.clone = none) : t.flight = none := by
  cases t with
  | idle => rfl
  | fetch c reference stage => cases stage <;> first | rfl | cases h

theorem guard_eq_none {t : Call} (h : t.flight = none) : t.guard = none := by
  cases t with
  | idle => rfl
  | fetch c reference stage => cases stage <;> first | rfl | cases h

end Call

/-! ## What a step can do -/

section Moves

variable {ι : Type} [DecidableEq ι] {i : ι} {e : Event} {s s' : Requests ι} {t t' : Call}

/-- What a step of call `i` does to the map, to the locks and to what the call holds. -/
inductive Move (i : ι) (s : Requests ι) (t : Call) (s' : Requests ι) (t' : Call) : Prop
  | keep {n : Nat} (hs : s' = { s with permits := n }) (hflight : t'.flight = t.flight)
    (hclone : t'.clone = t.clone) (hguard : t'.guard = t.guard)
  | enter {k : Bytes} (hclone : t.clone = none) (hs : s' = (s.lookup k i).1)
    (hflight : t'.flight = some (k, (s.lookup k i).2)) (hguard : t'.guard = none)
  | lock {k : Bytes} {l : Nat} {m : Mutexes ι} (ht : t.flight = some (k, l))
    (hm : s.mutexes.lock l i = some m) (hs : s' = { s with mutexes := m })
    (hflight : t'.flight = some (k, l)) (hguard : t'.guard = some (k, l))
  | unlock {k : Bytes} {l : Nat} (ht : t.guard = some (k, l))
    (hs : s' = { s with mutexes := s.mutexes.unlock l }) (hflight : t'.flight = some (k, l))
    (hguard : t'.guard = none)
  | land {c : ChannelId} {reference : Bytes} {l : Nat}
    (ht : t = .fetch c reference (.dropFlight l)) (hs : s' = s.removeIf (requestKey c reference))
    (ht' : t' = .fetch c reference (.dropClone l))
  | drop {l : Nat} (ht : t.clone = some l) (hflight : t.flight = none)
    (hs : s' = s.dropClone l i) (hclone : t'.clone = none)

theorem fetchStep_move {c : ChannelId} {reference : Bytes} {stage stage' : Stage}
    (h : fetchStep i c reference stage e s = some (s', stage')) :
    Move i s (.fetch c reference stage) s' (.fetch c reference stage') := by
  cases stage with
  | resolve => cases e <;> cases h <;> exact .keep rfl rfl rfl rfl
  | entry =>
    cases e <;> cases h
    exact .enter rfl rfl rfl rfl
  | lock l =>
    cases e with
    | start => cases h
    | next =>
      obtain ⟨m, hm, heq⟩ := Option.map_eq_some_iff.mp h
      cases heq
      exact .lock rfl hm rfl rfl rfl
    | leave =>
      cases h
      exact .keep rfl rfl rfl rfl
  | reread l => cases e <;> cases h <;> exact .keep rfl rfl rfl rfl
  | acquire l =>
    cases e with
    | next =>
      rw [fetchStep] at h
      split at h <;> cases h <;> exact .keep rfl rfl rfl rfl
    | _ => cases h
  | upstream l =>
    cases e <;> cases h
    exact .keep rfl rfl rfl rfl
  | dropPermit l =>
    cases e <;> cases h
    exact .keep rfl rfl rfl rfl
  | dropGuard l =>
    cases e <;> cases h
    exact .unlock rfl rfl rfl rfl
  | dropFlight l =>
    cases e <;> cases h
    exact .land rfl rfl rfl
  | dropClone l =>
    cases e <;> cases h
    exact .drop rfl rfl rfl rfl
  | returned => cases e <;> cases h

theorem step_move (h : Call.step i e s t = some (s', t')) : Move i s t s' t' := by
  cases t with
  | idle =>
    cases e with
    | start c reference =>
      cases h
      exact .keep rfl rfl rfl rfl
    | _ => cases h
  | fetch c reference stage =>
    obtain ⟨⟨x, stage'⟩, hstep, heq⟩ := Option.map_eq_some_iff.mp h
    cases heq
    exact fetchStep_move hstep

end Moves

/-! ## Where the locks are -/

section Invariant

variable {ι : Type} {p p' : Calls ι} {i j : ι} {s s' : Requests ι} {t t' u : Call}

/-- The map owns a reference to the lock of each entry, and a new lock has no owners. -/
structure Mapped (s : Requests ι) : Prop where
  owner : ∀ k l, s.entries k = some l → none ∈ s.owners l
  unshared : ∀ k k' l, s.entries k = some l → s.entries k' = some l → k = k'
  fresh : ∀ l, s.nextLock ≤ l → s.owners l = ∅

/-- What call `i` can rely on. -/
structure Holds (s : Requests ι) (i : ι) (t : Call) : Prop where
  /-- Until its flight drops, the lock it holds is the one the map has for its key. -/
  entry : ∀ k l, t.flight = some (k, l) → s.entries k = some l
  /-- It owns a reference to the lock it has a clone of, and to no other. -/
  owner : ∀ l, some i ∈ s.owners l ↔ t.clone = some l
  guard : ∀ k l, t.guard = some (k, l) → s.mutexes l = some i

/-- The invariant of the map and its calls. -/
structure Coalesced (p : Calls ι) : Prop where
  mapped : Mapped p.shared
  holds : ∀ i, Holds p.shared i (p.task i)

theorem Mapped.lt_nextLock (h : Mapped s) {k : Bytes} {l : Nat} (hk : s.entries k = some l) :
    l < s.nextLock := by
  by_contra hle
  simpa [h.fresh l (by omega)] using h.owner k l hk

theorem coalesced_new (permits : Nat) : Coalesced (Calls.new ι permits) where
  mapped := ⟨fun _ _ => nofun, fun _ _ _ => nofun, fun _ _ => rfl⟩
  holds := fun _ =>
    ⟨fun _ _ => nofun, fun _ => by simp [Calls.new, Requests.new, RefCounts.none, Call.clone],
      fun _ _ => nofun⟩

variable [DecidableEq ι]

/-- A lock with at most two references is the dropping call's alone. -/
theorem Mapped.alone (h : Mapped s) {k : Bytes} {l : Nat} (hi : Holds s i t)
    (ht : t.flight = some (k, l)) (hcount : s.owners.strongCount l ≤ 2) (hj : Holds s j u)
    (hu : u.clone = some l) : j = i := by
  have hmap := h.owner k l (hi.entry k l ht)
  have hi := (hi.owner l).mpr (Call.clone_of_flight ht)
  have hj := (hj.owner l).mpr hu
  rcases RefCounts.eq_of_strongCount_le_two hmap hi (by simp) hcount hj with hj | hj
  · cases hj
  · exact Option.some.inj hj

theorem Mapped.lookup (h : Mapped s) (k : Bytes) (i : ι) : Mapped (s.lookup k i).1 := by
  cases hk : s.entries k with
  | some l =>
    rw [Requests.lookup, hk]
    refine ⟨fun k' m hm => RefCounts.mem_clone.mpr (.inr (h.owner k' m hm)), h.unshared,
      fun m hm => ?_⟩
    have hne : m ≠ l := Nat.ne_of_gt (Nat.lt_of_lt_of_le (h.lt_nextLock hk) hm)
    exact (RefCounts.clone_of_ne hne).trans (h.fresh m hm)
  | none =>
    rw [Requests.lookup, hk]
    dsimp only
    have hentry : ∀ k' m, Function.update s.entries k (some s.nextLock) k' = some m →
        (k' = k ∧ m = s.nextLock) ∨ s.entries k' = some m := by
      intro k' m hm
      by_cases hk' : k' = k
      · subst hk'
        rw [Function.update_self] at hm
        exact .inl ⟨rfl, (Option.some.inj hm).symm⟩
      · rw [Function.update_of_ne hk'] at hm
        exact .inr hm
    refine ⟨fun k' m hm => ?_, fun k' k'' m hm hm' => ?_, fun m hm => ?_⟩
    · rcases hentry k' m hm with ⟨-, rfl⟩ | hold
      · simp
      · simp [h.owner k' m hold]
    · rcases hentry k' m hm, hentry k'' m hm' with ⟨⟨rfl, rfl⟩ | hold, ⟨rfl, hnew⟩ | hold'⟩
      · rfl
      · exact absurd (h.lt_nextLock hold') (Nat.lt_irrefl _)
      · exact absurd (hnew ▸ h.lt_nextLock hold) (Nat.lt_irrefl _)
      · exact h.unshared k' k'' m hold hold'
    · have hne : m ≠ s.nextLock := Nat.ne_of_gt hm
      exact (RefCounts.clone_of_ne hne).trans
        ((RefCounts.clone_of_ne hne).trans (h.fresh m (Nat.le_of_succ_le hm)))

theorem Mapped.drop (h : Mapped s) (l : Nat) (i : ι) : Mapped (s.dropClone l i) where
  owner := fun k m hm => RefCounts.mem_drop.mpr ⟨h.owner k m hm, by simp⟩
  unshared := h.unshared
  fresh := fun m hm => Finset.eq_empty_of_forall_notMem fun o ho => by
    have ho := (RefCounts.mem_drop.mp ho).1
    simp [h.fresh m hm] at ho

theorem Mapped.removeIf (h : Mapped s) {k : Bytes} {l : Nat} (hk : s.entries k = some l) :
    Mapped (s.removeIf k) := by
  rcases Requests.removeIf_cases hk with ⟨-, hs⟩ | ⟨-, hs⟩
  · rw [hs]
    have hentry : ∀ k' m, Function.update s.entries k none k' = some m →
        k' ≠ k ∧ s.entries k' = some m := by
      intro k' m hm
      by_cases hk' : k' = k
      · subst hk'
        rw [Function.update_self] at hm
        cases hm
      · rw [Function.update_of_ne hk'] at hm
        exact ⟨hk', hm⟩
    refine ⟨fun k' m hm => ?_, fun k' k'' m hm hm' => ?_, fun m hm => ?_⟩
    · obtain ⟨hk', hold⟩ := hentry k' m hm
      refine RefCounts.mem_drop.mpr ⟨h.owner k' m hold, ?_⟩
      rintro ⟨rfl, -⟩
      exact hk' (h.unshared k' k m hold hk)
    · exact h.unshared k' k'' m (hentry k' m hm).2 (hentry k'' m hm').2
    · refine Finset.eq_empty_of_forall_notMem fun o ho => ?_
      have hold := (RefCounts.mem_drop.mp ho).1
      simp [h.fresh m hm] at hold
  · rw [hs]
    exact h

/-- The map survives every step. -/
theorem Move.mapped (hmove : Move i s t s' t') (h : Mapped s) (hi : Holds s i t) :
    Mapped s' := by
  cases hmove with
  | keep hs => exact hs ▸ ⟨h.owner, h.unshared, h.fresh⟩
  | enter _ hs => exact hs ▸ h.lookup _ i
  | lock _ _ hs => exact hs ▸ ⟨h.owner, h.unshared, h.fresh⟩
  | unlock _ hs => exact hs ▸ ⟨h.owner, h.unshared, h.fresh⟩
  | land ht hs =>
    subst ht
    exact hs ▸ h.removeIf (hi.entry _ _ rfl)
  | drop _ _ hs => exact hs ▸ h.drop _ i

/-- The stepping call's own view. -/
theorem Move.own (hmove : Move i s t s' t') (hi : Holds s i t) : Holds s' i t' := by
  cases hmove with
  | keep hs hflight hclone hguard =>
    refine hs ▸ ⟨fun k l hk => hi.entry k l (hflight ▸ hk), fun l => ?_,
      fun k l hk => hi.guard k l (hguard ▸ hk)⟩
    rw [hclone]
    exact hi.owner l
  | enter hclone hs hflight hguard =>
    subst hs
    refine ⟨fun k l hk => ?_, fun l => ?_, fun k l hk => ?_⟩
    · rw [hflight] at hk
      cases hk
      exact Requests.lookup_entry_self
    · rw [Requests.mem_lookup_owners, hi.owner, hclone, Call.clone_of_flight hflight]
      simp [eq_comm]
    · rw [hguard] at hk
      cases hk
  | lock ht hm hs hflight hguard =>
    subst hs
    refine ⟨fun k l hk => hi.entry k l (ht.trans (hflight ▸ hk)), fun l => ?_, fun k l hk => ?_⟩
    · rw [Call.clone_of_flight hflight, ← Call.clone_of_flight ht]
      exact hi.owner l
    · rw [hguard] at hk
      cases hk
      exact (Mutexes.lock_eq_some hm).2.1
  | unlock ht hs hflight hguard =>
    subst hs
    have ht := Call.flight_of_guard ht
    refine ⟨fun k l hk => hi.entry k l (ht.trans (hflight ▸ hk)), fun l => ?_, fun k l hk => ?_⟩
    · rw [Call.clone_of_flight hflight, ← Call.clone_of_flight ht]
      exact hi.owner l
    · rw [hguard] at hk
      cases hk
  | land ht hs ht' =>
    subst ht
    subst ht'
    refine ⟨fun _ _ => nofun, fun l => ?_, fun _ _ => nofun⟩
    refine Iff.trans ?_ (hi.owner l)
    rcases Requests.removeIf_cases (hi.entry _ _ rfl) with ⟨-, hs'⟩ | ⟨-, hs'⟩
    · simp [hs, hs']
    · rw [hs, hs']
  | drop ht _ hs hclone =>
    subst hs
    refine ⟨fun k l hk => ?_, fun l => ?_, fun k l hk => ?_⟩
    · rw [Call.flight_eq_none hclone] at hk
      cases hk
    · rw [hclone, Requests.dropClone, RefCounts.mem_drop, hi.owner, ht]
      simp [eq_comm]
    · rw [Call.guard_eq_none (Call.flight_eq_none hclone)] at hk
      cases hk

/-- The other calls' views. -/
theorem Move.other (hmove : Move i s t s' t') (h : Mapped s) (hi : Holds s i t) (hne : j ≠ i)
    (hj : Holds s j u) : Holds s' j u := by
  cases hmove with
  | keep hs => exact hs ▸ ⟨hj.entry, hj.owner, hj.guard⟩
  | enter _ hs =>
    subst hs
    refine ⟨fun k l hk => Requests.lookup_entry (hj.entry k l hk), fun l => ?_, ?_⟩
    · rw [Requests.mem_lookup_owners, hj.owner]
      simp [hne]
    · rw [Requests.lookup_mutexes]
      exact hj.guard
  | lock _ hm hs =>
    exact hs ▸ ⟨hj.entry, hj.owner, fun k l hk => Mutexes.lock_keeps hm (hj.guard k l hk)⟩
  | unlock ht hs =>
    exact hs ▸ ⟨hj.entry, hj.owner, fun k l hk =>
      Mutexes.unlock_keeps (hi.guard _ _ ht) (hj.guard k l hk) hne⟩
  | @land c reference l ht hs =>
    have ht : t.flight = some (requestKey c reference, l) := ht ▸ rfl
    rcases Requests.removeIf_cases (hi.entry _ _ ht) with ⟨hcount, hs'⟩ | ⟨-, hs'⟩
    · rw [hs, hs']
      refine ⟨fun k l' hk => ?_, fun l' => ?_, hj.guard⟩
      · -- the entry of another call's key stays: that call would be a third owner
        have hentry := hj.entry k l' hk
        have hkne : k ≠ requestKey c reference := by
          rintro rfl
          rw [hi.entry _ l ht] at hentry
          cases hentry
          exact hne (h.alone hi ht hcount hj (Call.clone_of_flight hk))
        exact (Function.update_of_ne hkne ..).trans hentry
      · simpa using hj.owner l'
    · rw [hs, hs']
      exact hj
  | drop _ _ hs =>
    subst hs
    refine ⟨hj.entry, fun l => ?_, hj.guard⟩
    rw [Requests.dropClone, RefCounts.mem_drop, ← hj.owner]
    simp [hne]

theorem Coalesced.step {a : Action ι} (h : Coalesced p) (hstep : p.fire a = some p') :
    Coalesced p' := by
  have hmove := step_move (Pool.fire_eq_some hstep).1
  have hi := h.holds a.thread
  exact ⟨hmove.mapped h.mapped hi, Pool.fire_inv h.holds hstep (hmove.own hi)
    fun j hne hj => hmove.other h.mapped hi hne hj⟩

theorem coalesced_of_reach {G : Calls ι → Action ι → Prop} (h : (calls ι).Reach G p) :
    Coalesced p := by
  refine h.invariant ?_ fun x a y hx _ hstep => hx.step hstep
  rintro _ ⟨permits, rfl⟩
  exact coalesced_new permits

/-- The call is between acquiring the coalescing lock of a coordinate and dropping the guard. -/
def Call.Coalescing (c : ChannelId) (reference : Bytes) (t : Call) : Prop :=
  ∃ stage, t = .fetch c reference stage ∧ stage.guard.isSome

/-- **Single flight.** However the calls for one coordinate interleave, leave and drop what
they hold, at most one of them is behind the coalescing lock, so at most one is upstream. -/
theorem single_flight (h : (calls ι).Reach (fun _ _ => True) p) (c : ChannelId)
    (reference : Bytes) :
    {i | (p.task i).Coalescing c reference}.Subsingleton ∧
      {i | ∃ l, p.task i = .fetch c reference (.upstream l)}.Subsingleton := by
  have hinv := coalesced_of_reach h
  have hsingle : {i | (p.task i).Coalescing c reference}.Subsingleton := by
    rintro i ⟨stage, hi, hguard⟩ j ⟨stage', hj, hguard'⟩
    obtain ⟨l, hl⟩ := Option.isSome_iff_exists.mp hguard
    obtain ⟨l', hl'⟩ := Option.isSome_iff_exists.mp hguard'
    have hgi : (p.task i).guard = some (requestKey c reference, l) := by simp [hi, Call.guard, hl]
    have hgj : (p.task j).guard = some (requestKey c reference, l') := by
      simp [hj, Call.guard, hl']
    -- both locks are the map's entry for the key, so they are one lock with one holder
    have hei := (hinv.holds i).entry _ _ (Call.flight_of_guard hgi)
    have hej := (hinv.holds j).entry _ _ (Call.flight_of_guard hgj)
    obtain rfl : l = l' := Option.some.inj (hei.symm.trans hej)
    have hmi := (hinv.holds i).guard _ _ hgi
    have hmj := (hinv.holds j).guard _ _ hgj
    exact Option.some.inj (hmi.symm.trans hmj)
  refine ⟨hsingle, hsingle.anti ?_⟩
  rintro i ⟨l, hi⟩
  exact ⟨_, hi, rfl⟩

/-! ## What is left in the map -/

/-- Where the last flight of a key drops, no other call is between its flight drop and the
drop of its clone of the same lock. -/
def DropsAlone (p : Calls ι) (a : Action ι) : Prop :=
  ∀ c reference l, p.task a.thread = .fetch c reference (.dropFlight l) →
    (∃ j, j ≠ a.thread ∧ (p.task j).flight = some (requestKey c reference, l)) ∨
      ∀ j, (p.task j).lingers ≠ some l

/-- Every entry has a call whose flight will retry its removal. -/
def Retried (p : Calls ι) : Prop :=
  ∀ k l, p.shared.entries k = some l → ∃ i, (p.task i).flight = some (k, l)

/-- What is left of an entry at a flight drop belongs to another call's flight, unless that
call has only its clone left to drop. -/
theorem Coalesced.third_owner (h : Coalesced p) {k : Bytes} {l : Nat}
    (hi : (p.task i).flight = some (k, l)) (hcount : ¬ p.shared.owners.strongCount l ≤ 2) :
    ∃ j, j ≠ i ∧ ((p.task j).flight = some (k, l) ∨ (p.task j).lingers = some l) := by
  obtain ⟨o, ho, hmap, hne⟩ := RefCounts.exists_third_owner none (some i) hcount
  cases o with
  | none => exact absurd rfl hmap
  | some j =>
    refine ⟨j, fun hji => hne (hji ▸ rfl), ?_⟩
    have hclone := ((h.holds j).owner l).mp ho
    cases hflight : (p.task j).flight with
    | none => exact .inr (Call.lingers_of_clone hclone hflight)
    | some kl =>
      obtain ⟨k', l'⟩ := kl
      rw [Call.clone_of_flight hflight] at hclone
      cases hclone
      -- one lock has one key
      have hkey := h.mapped.unshared k' k l ((h.holds j).entry k' l hflight)
        ((h.holds i).entry k l hi)
      exact .inl (by rw [hkey])

theorem Requests.lookup_entry_cases {k k' : Bytes} {l : Nat}
    (h : (s.lookup k i).1.entries k' = some l) :
    (k' = k ∧ l = (s.lookup k i).2) ∨ s.entries k' = some l := by
  by_cases hk : k' = k
  · subst hk
    rw [Requests.lookup_entry_self] at h
    exact .inl ⟨rfl, (Option.some.inj h).symm⟩
  · unfold Requests.lookup at h
    split at h
    · exact .inr h
    · exact .inr ((Function.update_of_ne hk ..).symm.trans h)

theorem Retried.step {a : Action ι} (hr : Retried p) (h : Coalesced p) (hdrop : DropsAlone p a)
    (hstep : p.fire a = some p') : Retried p' := by
  obtain ⟨hown, hother⟩ := Pool.fire_eq_some hstep
  have hmove := step_move hown
  -- a flight that the step leaves alone still retries its entry
  have hkeep : ∀ k l, (∀ m, (p.task a.thread).flight = some (k, m) →
      (p'.task a.thread).flight = some (k, m)) → p.shared.entries k = some l →
      ∃ i, (p'.task i).flight = some (k, l) := by
    intro k l hsame hk
    obtain ⟨i, hi⟩ := hr k l hk
    by_cases hia : i = a.thread
    · subst hia
      exact ⟨_, hsame l hi⟩
    · exact ⟨i, by rw [hother i hia, hi]⟩
  intro k l hk
  cases hmove with
  | keep hs hflight =>
    rw [hs] at hk
    exact hkeep k l (fun m hm => hflight.trans hm) hk
  | enter hclone hs hflight =>
    rw [hs] at hk
    rcases Requests.lookup_entry_cases hk with ⟨rfl, rfl⟩ | hold
    · exact ⟨_, hflight⟩
    · refine hkeep k l (fun m hm => ?_) hold
      rw [Call.flight_eq_none hclone] at hm
      cases hm
  | lock ht _ hs hflight =>
    rw [hs] at hk
    exact hkeep k l (fun m hm => hflight.trans (ht.symm.trans hm)) hk
  | unlock ht hs hflight =>
    rw [hs] at hk
    exact hkeep k l (fun m hm => hflight.trans ((Call.flight_of_guard ht).symm.trans hm)) hk
  | @land c reference m ht hs =>
    have hi : (p.task a.thread).flight = some (requestKey c reference, m) := by rw [ht]; rfl
    have hentry := (h.holds a.thread).entry _ _ hi
    have hothers : ∀ k, k ≠ requestKey c reference → p.shared.entries k = some l →
        ∃ i, (p'.task i).flight = some (k, l) := by
      intro k hne hk
      refine hkeep k l (fun n hn => ?_) hk
      rw [hi] at hn
      cases hn
      exact absurd rfl hne
    rcases Requests.removeIf_cases hentry with ⟨-, hs'⟩ | ⟨hcount, hs'⟩
    · rw [hs, hs'] at hk
      by_cases hkey : k = requestKey c reference
      · subst hkey
        simp at hk
      · exact hothers k hkey ((Function.update_of_ne hkey ..).symm.trans hk)
    · rw [hs, hs'] at hk
      by_cases hkey : k = requestKey c reference
      · subst hkey
        obtain rfl : m = l := Option.some.inj (hentry.symm.trans hk)
        obtain ⟨j, hj, hflight | hlingers⟩ := h.third_owner hi hcount
        · exact ⟨j, by rw [hother j hj, hflight]⟩
        · rcases hdrop c reference m ht with ⟨j', hj', hflight⟩ | hnone
          · exact ⟨j', by rw [hother j' hj', hflight]⟩
          · exact absurd hlingers (hnone j)
      · exact hothers k hkey hk
  | drop _ hflight hs =>
    rw [hs] at hk
    refine hkeep k l (fun m hm => ?_) hk
    rw [hflight] at hm
    cases hm

theorem retried_of_reach (h : (calls ι).Reach DropsAlone p) : Retried p := by
  refine h.invariant_of_reach ?_ fun x a y hx hr hdrop hstep =>
    hr.step (coalesced_of_reach hx) hdrop hstep
  rintro _ ⟨permits, rfl⟩
  exact fun _ _ => nofun

/-- A flight that is the last of its key and does not drop alone leaves an entry that no
flight will retry. -/
theorem Coalesced.entry_left {a : Action ι} (h : Coalesced p) (hdrop : ¬ DropsAlone p a)
    (hstep : p.fire a = some p') :
    ∃ k l, p'.shared.entries k = some l ∧ ∀ i m, (p'.task i).flight ≠ some (k, m) := by
  obtain ⟨hown, hother⟩ := Pool.fire_eq_some hstep
  unfold DropsAlone at hdrop
  push Not at hdrop
  obtain ⟨c, reference, l, ht, hlast, j, hj⟩ := hdrop
  have hi : (p.task a.thread).flight = some (requestKey c reference, l) := by rw [ht]; rfl
  have hentry := (h.holds a.thread).entry _ _ hi
  have hne : j ≠ a.thread := by
    rintro rfl
    rw [ht] at hj
    cases hj
  -- the lingering clone is a third owner, so the entry is kept
  have hcount : ¬ p.shared.owners.strongCount l ≤ 2 := fun hcount =>
    hne (h.mapped.alone (h.holds a.thread) hi hcount (h.holds j) (Call.clone_of_lingers hj))
  have hleft : ∀ e, Call.step a.thread e p.shared (.fetch c reference (.dropFlight l)) =
      some (p'.shared, p'.task a.thread) → p'.shared = p.shared.removeIf (requestKey c reference) ∧
        p'.task a.thread = .fetch c reference (.dropClone l) := by
    intro e he
    cases e with
    | next =>
      obtain ⟨hs, ht'⟩ := Prod.mk.inj (Option.some.inj he)
      exact ⟨hs.symm, ht'.symm⟩
    | _ => cases he
  rw [ht] at hown
  obtain ⟨hs, ht'⟩ := hleft _ hown
  refine ⟨requestKey c reference, l, ?_, fun i m hm => ?_⟩
  · rcases Requests.removeIf_cases hentry with ⟨hle, -⟩ | ⟨-, hs'⟩
    · exact absurd hle hcount
    · rw [hs, hs', hentry]
  · by_cases hia : i = a.thread
    · subst hia
      rw [ht'] at hm
      cases hm
    · rw [hother i hia] at hm
      have hm' := (h.holds i).entry _ _ hm
      rw [hentry] at hm'
      cases hm'
      exact hlast i hia hm

/-- In every run in which the last flight of a key drops alone, a key without live calls has
no entry. Conversely, where the last flight does not drop alone, an entry is left that no
flight retries. -/
theorem entry_removed :
    (∀ p : Calls ι, (calls ι).Reach DropsAlone p → ∀ k, (∀ i, (p.task i).live ≠ some k) →
      p.shared.entries k = none) ∧
    ∀ (p p' : Calls ι) a, (calls ι).Reach (fun _ _ => True) p → ¬ DropsAlone p a →
      p.fire a = some p' →
        ∃ k l, p'.shared.entries k = some l ∧ ∀ i m, (p'.task i).flight ≠ some (k, m) := by
  constructor
  · intro p h k hlive
    cases hk : p.shared.entries k with
    | none => rfl
    | some l =>
      obtain ⟨i, hi⟩ := retried_of_reach h k l hk
      exact absurd (Call.live_of_flight hi) (hlive i)
  · intro p p' a h hdrop hstep
    exact (coalesced_of_reach h).entry_left hdrop hstep

end Invariant

/-! ## Two calls for one coordinate -/

section Sample

/-- `n` steps of one call. -/
def turns (i : Fin 2) (n : Nat) : List (Action (Fin 2)) := List.replicate n ⟨i, .next⟩

/-- The call of one coordinate starts, misses and looks up its lock. -/
def arrive (i : Fin 2) : List (Action (Fin 2)) := ⟨i, .start .default [97]⟩ :: turns i 2

/-- A call that waited for the lock takes it, finds a fresh answer and drops guard and
flight. -/
def answer (i : Fin 2) : List (Action (Fin 2)) := turns i 1 ++ ⟨i, .leave⟩ :: turns i 2

theorem reach_of_calls {G : Calls (Fin 2) → Action (Fin 2) → Prop}
    (ok : Calls (Fin 2) → Action (Fin 2) → Bool) (hok : ∀ p a, ok p a = true → G p a)
    (schedule : List (Action (Fin 2))) (check : Calls (Fin 2) → Bool)
    (h : (System.exec Calls.fire ok (Calls.new (Fin 2) 1) schedule).any check = true) :
    ∃ p, (calls (Fin 2)).Reach G p ∧ check p = true :=
  System.reach_of_exec (S := calls (Fin 2)) (fun _ _ _ hfire => hfire) hok ⟨1, rfl⟩ h

/-- One call is upstream while the other waits for the lock. -/
theorem second_call_waits : ∃ p : Calls (Fin 2), (calls (Fin 2)).Reach (fun _ _ => True) p ∧
    p.task 0 = .fetch .default [97] (.upstream 0) ∧ p.task 1 = .fetch .default [97] (.lock 0) ∧
    {i | (p.task i).Coalescing .default [97]} = {0} := by
  obtain ⟨p, hp, hcheck⟩ := reach_of_calls (fun _ _ => true) (fun _ _ _ => trivial)
    (arrive 0 ++ arrive 1 ++ turns 0 3)
    (fun p => decide (p.task 0 = .fetch .default [97] (.upstream 0) ∧
      p.task 1 = .fetch .default [97] (.lock 0))) (by decide)
  obtain ⟨h0, h1⟩ := of_decide_eq_true hcheck
  have hsingle := (single_flight hp .default [97]).1
  exact ⟨p, hp, h0, h1, hsingle.eq_singleton_of_mem ⟨_, h0, rfl⟩⟩

/-- The second call drops its flight while the first still has its clone: the count is three
both times, and the entry stays when both have returned. -/
theorem entry_leaks : ∃ p : Calls (Fin 2), (calls (Fin 2)).Reach (fun _ _ => True) p ∧
    (∀ i, (p.task i).live = none) ∧ p.shared.entries (requestKey .default [97]) = some 0 := by
  obtain ⟨p, hp, hcheck⟩ := reach_of_calls (G := fun _ _ => True) (fun _ _ => true)
    (fun _ _ _ => trivial) (arrive 0 ++ arrive 1 ++ answer 0 ++ answer 1 ++ turns 0 1 ++ turns 1 1)
    (fun p => decide ((∀ i, (p.task i).live = none) ∧
      p.shared.entries (requestKey .default [97]) = some 0)) (by decide)
  exact ⟨p, hp, of_decide_eq_true hcheck⟩

/-- `DropsAlone`, evaluated. -/
def dropsAlone (p : Calls (Fin 2)) (a : Action (Fin 2)) : Bool :=
  match p.task a.thread with
  | .fetch c reference (.dropFlight l) =>
    decide (∃ j, j ≠ a.thread ∧ (p.task j).flight = some (requestKey c reference, l)) ||
      decide (∀ j, (p.task j).lingers ≠ some l)
  | _ => true

theorem dropsAlone_iff (p : Calls (Fin 2)) (a : Action (Fin 2)) :
    dropsAlone p a = true ↔ DropsAlone p a := by
  constructor
  · intro h c reference l ht
    simpa [dropsAlone, ht] using h
  · intro h
    unfold dropsAlone
    split
    · rename_i c reference l ht
      simpa using h c reference l ht
    · rfl

/-- The first call drops its clone before the second drops its flight: the second removes the
entry. In the other order the second's flight leaves the entry to nobody. -/
theorem entry_removed_in_order :
    (∃ p : Calls (Fin 2), (calls (Fin 2)).Reach DropsAlone p ∧
      p.task 1 = .fetch .default [97] .returned ∧
      p.shared.entries (requestKey .default [97]) = none) ∧
    ∃ p p' : Calls (Fin 2), p.fire ⟨1, .next⟩ = some p' ∧
      p.task 1 = .fetch .default [97] (.dropFlight 0) ∧ ∃ k l, p'.shared.entries k = some l ∧
        ∀ i m, (p'.task i).flight ≠ some (k, m) := by
  constructor
  · obtain ⟨p, hp, hcheck⟩ := reach_of_calls dropsAlone (fun p a => (dropsAlone_iff p a).mp)
      (arrive 0 ++ arrive 1 ++ answer 0 ++ turns 0 1 ++ answer 1 ++ turns 1 1)
      (fun p => decide (p.task 1 = .fetch .default [97] .returned ∧ ∀ i, (p.task i).live = none))
      (by decide)
    obtain ⟨h1, hlive⟩ := of_decide_eq_true hcheck
    exact ⟨p, hp, h1, entry_removed.1 p hp _ fun i => by simp [hlive i]⟩
  · obtain ⟨p, hp, hcheck⟩ := reach_of_calls (G := fun _ _ => True) (fun _ _ => true)
      (fun _ _ _ => trivial)
      (arrive 0 ++ arrive 1 ++ answer 0 ++ turns 1 1 ++ [⟨1, .leave⟩] ++ turns 1 1)
      (fun p => decide (p.task 1 = .fetch .default [97] (.dropFlight 0)) && !dropsAlone p ⟨1, .next⟩)
      (by decide)
    obtain ⟨h1, hdrop⟩ := Bool.and_eq_true_iff.mp hcheck
    have h1 := of_decide_eq_true h1
    have hfire : ∃ p', p.fire ⟨1, .next⟩ = some p' := by
      simp [Calls.fire, Pool.fire, h1, Call.step, fetchStep]
    obtain ⟨p', hfire⟩ := hfire
    refine ⟨p, p', hfire, h1, entry_removed.2 p p' _ hp ?_ hfire⟩
    rw [← dropsAlone_iff]
    simpa using hdrop

end Sample

end Flywheel.Flight
