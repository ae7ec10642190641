import Flywheel.Agent.Discovery

/-!
# Ejection and re-admission

A member is taken off the continuum at the `failure_limit`-th failure in a row and comes back
when somebody looks at the deadlines after the retry timeout.

- `streak`: the failures in a row of a member, read off the history of calls. The counter of a
  member that is not ejected is its streak (`streak_eq`), by cases on what a call does to it
  (`Counted`).
- `ring_state_invariant`: the routing state after any history.
- `Retried`: what a call does to a deadline. From it, that a member stays out until its deadline
  (`run_out`) and comes back at the first look after it (`run_back`, `ring_in`).
- `ejection_window_iff`: the deadline is `now + retry_timeout` in 64 bits. The member is out for
  the timeout exactly if this sum does not wrap.
-/

set_option autoImplicit false

namespace Flywheel.Agent

open Lib

namespace RingState

variable {state : RingState} {inner : RingInner}

/-! ## Consecutive failures -/

def Call.isFailure (id : String) : Call → Bool
  | .recordFailure _ failed => failed == id
  | _ => false

/-- A failure that ejects the member. -/
def ejects (state : RingState) (inner : RingInner) (id : String) : Call → Bool
  | .recordFailure now failed => failed == id && (state.recordFailure inner now failed).1
  | _ => false

/-- The call is a success of the member, finds it not discovered, or ends an ejection. -/
def clears (state : RingState) (inner : RingInner) (id : String) (call : Call) : Bool :=
  call == .recordSuccess id || (inner.find id).isNone ||
    ((inner.ejected id || state.ejects inner id call) && !(state.perform inner call).ejected id)

/-- The failures recorded for a member while it was not ejected, since its last success,
re-admission or first discovery. -/
def streak (state : RingState) : List Call → String → Nat
  | [], _ => 0
  | call :: earlier, id =>
    if state.clears (state.after earlier) id call then 0
    else if call.isFailure id && !(state.after earlier).ejected id then
      state.streak earlier id + 1
    else state.streak earlier id

variable {call : Call} {id : String} {health health' : MemberHealth}

theorem ejects_of_not_failure (h : call.isFailure id = false) :
    state.ejects inner id call = false := by
  cases call with
  | recordFailure now failed =>
    have hne : (failed == id) = false := h
    rw [ejects, hne, Bool.false_and]
  | _ => rfl

theorem ejected_eq (hfind : inner.find id = some health) :
    inner.ejected id = health.nextRetry.isSome := by
  rw [RingInner.ejected, hfind, Option.any_some]

/-- A call that is neither a success nor a failure of a member that stays out of ejection is
no part of its streak. -/
theorem clears_eq_false (hsuccess : call ≠ .recordSuccess id) (hfind : inner.find id = some health)
    (hnone : health.nextRetry = none) (hejects : state.ejects inner id call = false) :
    state.clears inner id call = false := by
  have hejected : inner.ejected id = false := by
    rw [ejected_eq hfind, hnone]
    rfl
  simp [clears, hsuccess, hfind, hejects, hejected]

/-- What the failures of a member that is not ejected after a call were before it. -/
inductive Counted (state : RingState) (inner : RingInner) (call : Call) (id : String) :
    UInt32 → Prop where
  | cleared (h : state.clears inner id call = true) : Counted state inner call id 0
  | counted (h : state.clears inner id call = false) (hfailure : call.isFailure id = true)
      {health : MemberHealth} (hfind : inner.find id = some health)
      (hnone : health.nextRetry = none)
      (hlimit : countFailure health.failures < state.failureLimit) :
      Counted state inner call id (countFailure health.failures)
  | kept (h : state.clears inner id call = false) (hfailure : call.isFailure id = false)
      {health : MemberHealth} (hfind : inner.find id = some health)
      (hnone : health.nextRetry = none) : Counted state inner call id health.failures

/-- A look at the deadlines keeps the failures or ends the ejection. -/
theorem counted_reinstate {now : UInt64} (hsuccess : call ≠ .recordSuccess id)
    (hfailure : call.isFailure id = false) (hfind : inner.find id = some health)
    (hafter : (state.perform inner call).find id = some health')
    (hfailures : health'.failures = (health.reinstate now).failures)
    (hretry : health'.nextRetry = (health.reinstate now).nextRetry)
    (hnone : health'.nextRetry = none) : Counted state inner call id health'.failures := by
  rcases MemberHealth.reinstate_eq_none (hretry.symm.trans hnone) with ⟨hno, hsame⟩ | ⟨hsome, hzero⟩
  · rw [hfailures, hsame]
    exact .kept (clears_eq_false hsuccess hfind hno (ejects_of_not_failure hfailure)) hfailure
      hfind hno
  · rw [hfailures, hzero]
    refine .cleared ?_
    simp [clears, ejected_eq hfind, hsome, ejected_eq hafter, hnone]

theorem counted_recordFailure (hok : inner.Ok state) {now : UInt64} {failed : String}
    (hafter : (state.perform inner (.recordFailure now failed)).find id = some health')
    (hnone : health'.nextRetry = none) :
    Counted state inner (.recordFailure now failed) id health'.failures := by
  have hnotsuccess : Call.recordFailure now failed ≠ .recordSuccess id := fun h => by cases h
  rcases recordFailure_cases hok.ordered now failed with
    ⟨hmissing, heq⟩ | ⟨found, hfound, ⟨hspared, heq⟩ | ⟨hno, hlimit, heq⟩⟩
  · -- nobody of that id: nothing happens
    have hfind : inner.find id = some health' := by
      rw [← hafter, perform, heq]
    have hne : (failed == id) = false := by
      rw [beq_eq_false_iff_ne]
      rintro rfl
      rw [hmissing] at hfind
      cases hfind
    exact .kept (clears_eq_false hnotsuccess hfind hnone (ejects_of_not_failure hne)) hne hfind
      hnone
  · have hfind := hafter
    rw [perform, heq, RingInner.update_find (f := count) (fun _ => rfl)] at hfind
    split at hfind
    · rename_i hid
      subst hid
      rw [hfound, Option.map_some, Option.some.injEq] at hfind
      subst hfind
      have hno : found.nextRetry = none := hnone
      have hlt : countFailure found.failures < state.failureLimit := by
        refine hspared.resolve_left ?_
        rw [hno]
        exact Bool.false_ne_true
      refine .counted (clears_eq_false hnotsuccess hfound hno ?_) (beq_self_eq_true id) hfound hno
        hlt
      rw [ejects, heq, Bool.and_false]
    · rename_i hid
      have hne : (failed == id) = false := beq_eq_false_iff_ne.mpr fun h => hid h.symm
      exact .kept (clears_eq_false hnotsuccess hfind hnone (ejects_of_not_failure hne)) hne hfind
        hnone
  · have hfind := hafter
    rw [perform, heq, rebuild_find, RingInner.update_find (f := eject _) (fun _ => rfl)] at hfind
    split at hfind
    · -- ejected and, with the deadline passed already, back at once
      rename_i hid
      subst hid
      rw [hfound, Option.map_some, Option.map_some, Option.some.injEq] at hfind
      have hejects : state.ejects inner id (.recordFailure now id) = true := by
        rw [ejects, heq, beq_self_eq_true]
        rfl
      rcases MemberHealth.reinstate_eq_none (hfind ▸ hnone) with ⟨hno', -⟩ | ⟨-, hzero⟩
      · cases hno'
      · rw [← hfind, hzero]
        refine .cleared ?_
        simp [clears, hejects, ejected_eq hafter, hnone]
    · rename_i hid
      have hne : (failed == id) = false := beq_eq_false_iff_ne.mpr fun h => hid h.symm
      obtain ⟨before, hbefore, rfl⟩ := Option.map_eq_some_iff.mp hfind
      exact counted_reinstate hnotsuccess hne hbefore hafter rfl rfl hnone

theorem perform_counted (hok : inner.Ok state)
    (hafter : (state.perform inner call).find id = some health')
    (hnone : health'.nextRetry = none) : Counted state inner call id health'.failures := by
  cases call with
  | ring now =>
    have hnotsuccess : Call.ring now ≠ .recordSuccess id := fun h => by cases h
    -- The continuum is rebuilt only when a deadline has passed.
    rcases ring_cases state inner now with ⟨-, heq⟩ | ⟨-, heq⟩
    · have hfind : inner.find id = some health' := by
        rw [← hafter, perform, heq]
      exact .kept (clears_eq_false hnotsuccess hfind hnone rfl) rfl hfind hnone
    · have hfind := hafter
      rw [perform, heq, rebuild_find] at hfind
      obtain ⟨before, hbefore, rfl⟩ := Option.map_eq_some_iff.mp hfind
      exact counted_reinstate hnotsuccess rfl hbefore hafter rfl rfl hnone
  | recordSuccess succeeded =>
    have hfind := hafter
    rw [perform, recordSuccess_eq hok.ordered, RingInner.update_find (f := reset) fun _ => rfl]
      at hfind
    split at hfind
    · rename_i hid
      subst hid
      obtain ⟨before, -, rfl⟩ := Option.map_eq_some_iff.mp hfind
      exact .cleared (by simp [clears])
    · rename_i hid
      have hne : Call.recordSuccess succeeded ≠ .recordSuccess id := by
        rintro h
        cases h
        exact hid rfl
      exact .kept (clears_eq_false hne hfind hnone rfl) rfl hfind hnone
  | recordFailure now failed => exact counted_recordFailure hok hafter hnone
  | applySnapshot now discovered =>
    have hnotsuccess : Call.applySnapshot now discovered ≠ .recordSuccess id := fun h => by cases h
    have hfind := hafter
    rw [perform, applySnapshot_find] at hfind
    obtain ⟨m, hm, rfl⟩ := Option.map_eq_some_iff.mp hfind
    have hid : m.id = id := key_of_findKey hm
    have hcarry := carryOver_eq hok.ordered m
    rw [hid] at hcarry
    cases hbefore : inner.find id with
    | none =>
      -- first discovered: no failures and no deadline
      rw [hbefore] at hcarry
      rw [hcarry, MemberHealth.reinstate_of_none rfl]
      exact .cleared (by simp [clears, hbefore])
    | some before =>
      rw [hbefore] at hcarry
      -- A member that was known before keeps its count across a refresh.
      have hfailures : (carryOver inner.members m).failures = before.failures := by rw [hcarry]; rfl
      have hretry : (carryOver inner.members m).nextRetry = before.nextRetry := by rw [hcarry]; rfl
      have hcongr := MemberHealth.reinstate_congr now hfailures hretry
      exact counted_reinstate hnotsuccess rfl hbefore hafter hcongr.1 hcongr.2 hnone
  | recordRefreshError error =>
    have hnotsuccess : Call.recordRefreshError error ≠ .recordSuccess id := fun h => by cases h
    have hfind : inner.find id = some health' := hafter
    exact .kept (clears_eq_false hnotsuccess hfind hnone rfl) rfl hfind hnone

/-- Below the limit, counting does not saturate. -/
theorem toNat_countFailure {failures : UInt32} (h : failures < state.failureLimit) :
    (countFailure failures).toNat = failures.toNat + 1 := by
  have hlt := UInt32.lt_iff_toNat_lt.mp h
  have hlimit := state.failureLimit.toNat_lt
  rw [countFailure, if_pos (by omega), UInt32.toNat_add]
  exact Nat.mod_eq_of_lt (by show failures.toNat + 1 < 2 ^ 32; omega)

theorem streak_eq (state : RingState) (history : List Call) (id : String)
    (hfind : (state.after history).find id = some health) (hnone : health.nextRetry = none) :
    health.failures.toNat = state.streak history id := by
  induction history generalizing health with
  | nil => cases hfind
  | cons call earlier ih =>
    have hok := after_ok state earlier
    rw [streak]
    generalize hf : health.failures = failures
    have hcounted := perform_counted hok hfind hnone
    rw [hf] at hcounted
    cases hcounted with
    | cleared hclears => rw [if_pos hclears]; rfl
    | counted hclears hfailure hbefore hno hlimit =>
      rename_i before
      have hejected : (state.after earlier).ejected id = false := by
        rw [ejected_eq hbefore, hno]
        rfl
      rw [if_neg (by rw [hclears]; exact Bool.false_ne_true),
        if_pos (by rw [hfailure, hejected]; rfl), ← ih hbefore hno]
      exact toNat_countFailure (hok.below_limit before (hok.find_iff.mp hbefore).1 hno)
    | kept hclears hfailure hbefore hno =>
      rw [if_neg (by rw [hclears]; exact Bool.false_ne_true),
        if_neg (by rw [hfailure]; exact Bool.false_ne_true), ih hbefore hno]

theorem recordFailure_iff (hok : inner.Ok state) (now : UInt64) (id : String) :
    (state.recordFailure inner now id).1 = true ↔
      ∃ health, inner.find id = some health ∧ health.nextRetry = none ∧
        health.failures.toNat + 1 = state.failureLimit.toNat := by
  rcases recordFailure_cases hok.ordered now id with
    ⟨hmissing, heq⟩ | ⟨health, hfind, ⟨hspared, heq⟩ | ⟨hno, hlimit, heq⟩⟩
  · rw [heq]
    constructor
    · intro h
      cases h
    · rintro ⟨health, hfind, -⟩
      rw [hmissing] at hfind
      cases hfind
  · rw [heq]
    constructor
    · intro h
      cases h
    · rintro ⟨found, hfound, hno, hcount⟩
      cases hfind.symm.trans hfound
      have hbelow := hok.below_limit health (hok.find_iff.mp hfind).1 hno
      rcases hspared with hsome | hlt
      · rw [hno] at hsome
        cases hsome
      · have hlt := UInt32.lt_iff_toNat_lt.mp hlt
        rw [toNat_countFailure hbelow] at hlt
        omega
  · rw [heq]
    refine ⟨fun _ => ⟨health, hfind, hno, ?_⟩, fun _ => rfl⟩
    have hbelow := hok.below_limit health (hok.find_iff.mp hfind).1 hno
    rw [UInt32.lt_iff_toNat_lt, toNat_countFailure hbelow] at hlimit
    have hlt := UInt32.lt_iff_toNat_lt.mp hbelow
    omega

/-- After every history of calls, with whatever clock readings: the members are sorted by id
and the binary search finds every one of them; the continuum is the one of the members that
are not ejected; the earliest deadline is the least; and a failure ejects exactly if it is
the last that the limit allows in a row. -/
theorem ring_state_invariant (state : RingState) (history : List Call) :
    StrictlyOrdered MemberHealth.id (state.after history).members ∧
    (∀ health ∈ (state.after history).members,
      member (state.after history).members health.id = some health) ∧
    (∀ id, (∀ health ∈ (state.after history).members, health.id ≠ id) →
      member (state.after history).members id = none) ∧
    (state.after history).ring =
      .new state.sha256 (eligible (state.after history).members) ∧
    (∀ deadline, (state.after history).earliestRetry = some deadline ↔
      (∃ health ∈ (state.after history).members, health.nextRetry = some deadline) ∧
        ∀ health ∈ (state.after history).members, ∀ other, health.nextRetry = some other →
          deadline ≤ other) ∧
    ((state.after history).earliestRetry = none ↔
      ∀ health ∈ (state.after history).members, health.nextRetry = none) ∧
    ∀ now id, (state.recordFailure (state.after history) now id).1 = true ↔
      ((state.after history).find id).isSome ∧ (state.after history).ejected id = false ∧
        state.streak history id + 1 = state.failureLimit.toNat := by
  have hok := after_ok state history
  refine ⟨hok.ordered, ?_, ?_, hok.ring_eq, hok.earliestRetry_eq_some, hok.earliestRetry_eq_none,
    ?_⟩
  · intro health hmem
    rw [member_eq_find hok.ordered]
    exact hok.find_iff.mpr ⟨hmem, rfl⟩
  · intro id hne
    rw [member_eq_find hok.ordered]
    exact findKey_eq_none.mpr hne
  · intro now id
    rw [recordFailure_iff hok]
    constructor
    · rintro ⟨health, hfind, hno, hcount⟩
      rw [streak_eq state history id hfind hno] at hcount
      refine ⟨by rw [hfind]; rfl, ?_, hcount⟩
      rw [ejected_eq hfind, hno]
      rfl
    · rintro ⟨hsome, hejected, hcount⟩
      obtain ⟨health, hfind⟩ := Option.isSome_iff_exists.mp hsome
      rw [ejected_eq hfind, Option.isSome_eq_false_iff, Option.isNone_iff_eq_none] at hejected
      refine ⟨health, hfind, hejected, ?_⟩
      rw [streak_eq state history id hfind hejected]
      exact hcount

/-! ## The time out of the continuum -/

/-- What the call reads of the clock. -/
def Call.time : Call → Option UInt64
  | .ring now | .recordFailure now _ | .applySnapshot now _ => some now
  | .recordSuccess _ | .recordRefreshError _ => none

def Call.Lists (id : String) : Call → Prop
  | .applySnapshot _ discovered => id ∈ discovered.map RingMember.id
  | _ => True

/-- The state after more calls, the first one first. -/
def run (state : RingState) (inner : RingInner) (calls : List Call) : RingInner :=
  calls.foldl state.perform inner

/-- The clock reads `t`, then what the calls read, then `now`, and never goes back. -/
def ClockMonotone (t : UInt64) (calls : List Call) (now : UInt64) : Prop :=
  (t :: (calls.filterMap Call.time ++ [now])).Pairwise (· ≤ ·)

/-- No call of the list ejects the member. -/
def NotEjected (state : RingState) (inner : RingInner) (id : String) (calls : List Call) : Prop :=
  ∀ earlier call later, calls = earlier ++ call :: later →
    state.ejects (state.run inner earlier) id call = false

/-- After the ejection of `id` at `t`, whatever is called while the snapshots list it: the
continuum is without it for the retry timeout, and with it from then on until it is ejected
again. -/
def EjectionWindow (state : RingState) (inner : RingInner) (t : UInt64) (id : String) : Prop :=
  ∀ calls now, ClockMonotone t calls now → (∀ call ∈ calls, call.Lists id) →
    (now.toNat < t.toNat + state.retryTimeoutSeconds.toNat →
      id ∉ (state.ring (state.run (state.recordFailure inner t id).2 calls) now).1.members.map
        RingMember.id) ∧
    (t.toNat + state.retryTimeoutSeconds.toNat ≤ now.toNat →
      state.NotEjected (state.recordFailure inner t id).2 id calls →
      id ∈ (state.ring (state.run (state.recordFailure inner t id).2 calls) now).1.members.map
        RingMember.id)

/-- Who is in the continuum. -/
theorem mem_ring_iff (hok : inner.Ok state) :
    id ∈ inner.ring.members.map RingMember.id ↔
      ∃ health, inner.find id = some health ∧ health.nextRetry = none := by
  rw [hok.ring_eq, Ring.new_members, mem_map_indexByKey, List.mem_map]
  constructor
  · rintro ⟨m, hm, rfl⟩
    obtain ⟨health, hmem, hno, rfl⟩ := mem_eligible.mp hm
    exact ⟨health, hok.find_iff.mpr ⟨hmem, rfl⟩, hno⟩
  · rintro ⟨health, hfind, hno⟩
    obtain ⟨hmem, hid⟩ := hok.find_iff.mp hfind
    exact ⟨health.member, mem_eligible.mpr ⟨health, hmem, hno, rfl⟩, hid⟩

theorem ring_fst (now : UInt64) :
    (state.ring inner now).1 = (state.perform inner (.ring now)).ring := by
  rcases ring_cases state inner now with ⟨-, heq⟩ | ⟨-, heq⟩
  · rw [perform, heq]
  · rw [perform, heq]

/-- What a call does to the deadline of a member: nothing, or it lets the member back in after
the deadline, or it ejects it. -/
inductive Retried (state : RingState) (inner : RingInner) (call : Call) (id : String)
    (before after : Option UInt64) : Prop where
  | same (h : after = before)
  | back {deadline time : UInt64} (hbefore : before = some deadline)
      (htime : call.time = some time) (hle : deadline ≤ time) (h : after = none)
  | out (hbefore : before = none) (h : state.ejects inner id call = true)

theorem retried_reinstate {now : UInt64} (htime : call.time = some now) :
    Retried state inner call id health.nextRetry (health.reinstate now).nextRetry := by
  cases hretry : health.nextRetry with
  | none =>
    rw [MemberHealth.reinstate_of_none hretry]
    exact .same hretry
  | some deadline =>
    by_cases hle : deadline ≤ now
    · rw [MemberHealth.reinstate_of_le hretry hle]
      exact .back rfl htime hle rfl
    · rw [MemberHealth.reinstate_of_lt hretry (UInt64.not_le.mp hle)]
      exact .same hretry

theorem retried_recordFailure (hok : inner.Ok state) (hfind : inner.find id = some health)
    (now : UInt64) (failed : String) :
    ∃ health', (state.perform inner (.recordFailure now failed)).find id = some health' ∧
      Retried state inner (.recordFailure now failed) id health.nextRetry health'.nextRetry := by
  rcases recordFailure_cases hok.ordered now failed with
    ⟨-, heq⟩ | ⟨found, hfound, ⟨-, heq⟩ | ⟨hno, -, heq⟩⟩
  · refine ⟨health, ?_, .same rfl⟩
    rw [perform, heq]
    exact hfind
  · rw [perform, heq, RingInner.update_find (f := count) (fun _ => rfl)]
    split
    · rw [hfind]
      exact ⟨_, rfl, .same rfl⟩
    · exact ⟨health, hfind, .same rfl⟩
  · rw [perform, heq, rebuild_find, RingInner.update_find (f := eject _) (fun _ => rfl)]
    split
    · rename_i hid
      subst hid
      cases hfind.symm.trans hfound
      rw [hfind]
      refine ⟨_, rfl, .out hno ?_⟩
      rw [ejects, heq, beq_self_eq_true]
      rfl
    · rw [hfind]
      exact ⟨_, rfl, retried_reinstate rfl⟩

theorem perform_retried (hok : inner.Ok state) (hfind : inner.find id = some health)
    (hlists : call.Lists id) :
    ∃ health', (state.perform inner call).find id = some health' ∧
      Retried state inner call id health.nextRetry health'.nextRetry := by
  cases call with
  | ring now =>
    rcases ring_cases state inner now with ⟨-, heq⟩ | ⟨-, heq⟩
    · rw [perform, heq]
      exact ⟨health, hfind, .same rfl⟩
    · rw [perform, heq, rebuild_find, hfind]
      exact ⟨_, rfl, retried_reinstate rfl⟩
  | recordSuccess succeeded =>
    rw [perform, recordSuccess_eq hok.ordered, RingInner.update_find (f := reset) fun _ => rfl]
    split
    · rw [hfind]
      exact ⟨_, rfl, .same rfl⟩
    · exact ⟨health, hfind, .same rfl⟩
  | recordFailure now failed => exact retried_recordFailure hok hfind now failed
  | applySnapshot now discovered =>
    obtain ⟨m, hm, hid⟩ := List.mem_map.mp hlists
    obtain ⟨listed, hlisted⟩ :=
      Option.isSome_iff_exists.mp (findKey_isSome.mpr ⟨m, hm, hid⟩)
    rw [perform, applySnapshot_find, hlisted]
    refine ⟨_, rfl, ?_⟩
    -- the deadline is carried over before the deadlines are looked at
    have hcarried : (carryOver inner.members listed).nextRetry = health.nextRetry := by
      rw [carryOver_eq hok.ordered, key_of_findKey hlisted, hfind]
      rfl
    rw [← hcarried]
    exact retried_reinstate rfl
  | recordRefreshError error => exact ⟨health, hfind, .same rfl⟩

theorem run_ok (hok : inner.Ok state) (calls : List Call) : (state.run inner calls).Ok state := by
  induction calls generalizing inner with
  | nil => exact hok
  | cons call calls ih => exact ih (perform_ok hok call)

/-- Before the deadline nothing lets the member back in. -/
theorem run_out {deadline : UInt64} {calls : List Call} (hok : inner.Ok state)
    (hfind : inner.find id = some health) (hretry : health.nextRetry = some deadline)
    (hlists : ∀ call ∈ calls, call.Lists id)
    (htimes : ∀ call ∈ calls, ∀ time, call.time = some time → time < deadline) :
    ∃ health', (state.run inner calls).find id = some health' ∧
      health'.nextRetry = some deadline := by
  induction calls generalizing inner health with
  | nil => exact ⟨health, hfind, hretry⟩
  | cons call calls ih =>
    obtain ⟨health', hfind', hretried⟩ :=
      perform_retried hok hfind (hlists call List.mem_cons_self)
    refine ih (perform_ok hok call) hfind' ?_
      (fun c hc => hlists c (List.mem_cons_of_mem _ hc))
      (fun c hc => htimes c (List.mem_cons_of_mem _ hc))
    cases hretried with
    | same h => exact h.trans hretry
    | back hbefore htime hle _ =>
      cases hretry.symm.trans hbefore
      have hlt := htimes call List.mem_cons_self _ htime
      exact absurd hle (UInt64.not_le.mpr hlt)
    | out hbefore _ => cases hretry.symm.trans hbefore

/-- A member that is not ejected again has its one deadline or none. -/
theorem run_back {deadline : UInt64} {calls : List Call} (hok : inner.Ok state)
    (hfind : inner.find id = some health)
    (hretry : health.nextRetry = some deadline ∨ health.nextRetry = none)
    (hlists : ∀ call ∈ calls, call.Lists id) (hnot : state.NotEjected inner id calls) :
    ∃ health', (state.run inner calls).find id = some health' ∧
      (health'.nextRetry = some deadline ∨ health'.nextRetry = none) := by
  induction calls generalizing inner health with
  | nil => exact ⟨health, hfind, hretry⟩
  | cons call calls ih =>
    obtain ⟨health', hfind', hretried⟩ :=
      perform_retried hok hfind (hlists call List.mem_cons_self)
    refine ih (perform_ok hok call) hfind' ?_
      (fun c hc => hlists c (List.mem_cons_of_mem _ hc)) ?_
    · cases hretried with
      | same h => rwa [h]
      | back _ _ _ h => exact .inr h
      | out _ h =>
        have hfalse : state.ejects inner id call = false := hnot [] call calls rfl
        rw [hfalse] at h
        cases h
    · intro earlier later rest hsplit
      exact hnot (call :: earlier) later rest (by rw [hsplit]; rfl)

theorem ring_out {deadline now : UInt64} (hok : inner.Ok state)
    (hfind : inner.find id = some health) (hretry : health.nextRetry = some deadline)
    (hlt : now < deadline) : id ∉ (state.ring inner now).1.members.map RingMember.id := by
  have hrun : ∃ health', (state.run inner [.ring now]).find id = some health' ∧
      health'.nextRetry = some deadline :=
    run_out hok hfind hretry (by simp [Call.Lists]) (by simpa [Call.time] using hlt)
  obtain ⟨health', hfind', hretry'⟩ := hrun
  rw [ring_fst, mem_ring_iff (perform_ok hok _)]
  rintro ⟨found, hfound, hno⟩
  cases hfound.symm.trans hfind'
  cases hno.symm.trans hretry'

theorem ring_in {now : UInt64} (hok : inner.Ok state) (hfind : inner.find id = some health)
    (hretry : ∀ deadline, health.nextRetry = some deadline → deadline ≤ now) :
    id ∈ (state.ring inner now).1.members.map RingMember.id := by
  rw [ring_fst, mem_ring_iff (perform_ok hok _)]
  rcases ring_cases state inner now with ⟨hdate, heq⟩ | ⟨-, heq⟩
  · rw [perform, heq]
    refine ⟨health, hfind, ?_⟩
    cases hsome : health.nextRetry with
    | none => rfl
    | some deadline =>
      -- the earliest deadline is not past this one, and this one is not past now
      obtain ⟨earliest, hearliest, hle⟩ :=
        hok.earliest_le health (hok.find_iff.mp hfind).1 deadline hsome
      rw [upToDate, hearliest, Option.all_some, decide_eq_true_eq] at hdate
      exact absurd (UInt64.le_trans hle (hretry deadline hsome)) (UInt64.not_le.mpr hdate)
  · rw [perform, heq, rebuild_find, hfind]
    refine ⟨_, rfl, ?_⟩
    cases hsome : health.nextRetry with
    | none => rw [MemberHealth.reinstate_of_none hsome, hsome]
    | some deadline => rw [MemberHealth.reinstate_of_le hsome (hretry deadline hsome)]

/-- After an ejection the member has its deadline, unless that has passed already. -/
theorem recordFailure_out (hok : inner.Ok state) {t : UInt64}
    (h : (state.recordFailure inner t id).1 = true) :
    ∃ health, (state.recordFailure inner t id).2.find id = some health ∧
      health.nextRetry =
        if t + state.retryTimeoutSeconds ≤ t then none
        else some (t + state.retryTimeoutSeconds) := by
  rcases recordFailure_cases hok.ordered t id with
    ⟨-, heq⟩ | ⟨found, hfound, ⟨-, heq⟩ | ⟨hno, -, heq⟩⟩
  · rw [heq] at h
    cases h
  · rw [heq] at h
    cases h
  · rw [heq, rebuild_find, RingInner.update_find (f := eject _) (fun _ => rfl), if_pos rfl, hfound]
    refine ⟨_, rfl, ?_⟩
    have hretry : (eject (t + state.retryTimeoutSeconds) found).nextRetry =
        some (t + state.retryTimeoutSeconds) := rfl
    split
    · rename_i hle
      rw [MemberHealth.reinstate_of_le hretry hle]
    · rename_i hle
      rw [MemberHealth.reinstate_of_lt hretry (UInt64.not_le.mp hle), hretry]

theorem ClockMonotone.le {t now : UInt64} {calls : List Call} (h : ClockMonotone t calls now) :
    ∀ call ∈ calls, ∀ time, call.time = some time → time ≤ now := by
  intro call hcall time htime
  have htail := (List.pairwise_cons.mp h).2
  have hmem : time ∈ calls.filterMap Call.time := List.mem_filterMap.mpr ⟨call, hcall, htime⟩
  exact (List.pairwise_append.mp htail).2.2 time hmem now List.mem_cons_self

/-- A deadline past the largest `u64` comes out below the clock: the member is back before
`record_failure` returns. -/
theorem not_ejectionWindow (hok : inner.Ok state) {t : UInt64}
    (h : (state.recordFailure inner t id).1 = true)
    (hwrap : 2 ^ 64 ≤ t.toNat + state.retryTimeoutSeconds.toNat) :
    ¬ state.EjectionWindow inner t id := by
  intro hwindow
  have ht := t.toNat_lt
  have htimeout := state.retryTimeoutSeconds.toNat_lt
  have hle : t + state.retryTimeoutSeconds ≤ t := by
    rw [UInt64.le_iff_toNat_le, UInt64.toNat_add, Nat.mod_eq_sub_mod hwrap, Nat.mod_eq_of_lt]
    · omega
    · omega
  obtain ⟨health, hfind, hretry⟩ := recordFailure_out hok h
  rw [if_pos hle] at hretry
  have hmonotone : ClockMonotone t [] t := by simp [ClockMonotone]
  refine (hwindow [] t hmonotone (fun _ hc => by cases hc)).1 (by omega) ?_
  refine ring_in (recordFailure_ok hok t id) hfind ?_
  intro deadline hd
  cases hretry.symm.trans hd

/-- An ejection lasts for the retry timeout exactly if the deadline is a `u64`. -/
theorem ejection_window_iff (state : RingState) (history : List Call) (t : UInt64) (id : String)
    (h : (state.recordFailure (state.after history) t id).1 = true) :
    state.EjectionWindow (state.after history) t id ↔
      t.toNat + state.retryTimeoutSeconds.toNat < 2 ^ 64 := by
  have hok := after_ok state history
  constructor
  · intro hwindow
    by_contra hwrap
    exact not_ejectionWindow hok h (Nat.le_of_not_lt hwrap) hwindow
  · intro hfits calls now hmonotone hlists
    have hdeadline : (t + state.retryTimeoutSeconds).toNat =
        t.toNat + state.retryTimeoutSeconds.toNat := by
      rw [UInt64.toNat_add, Nat.mod_eq_of_lt hfits]
    obtain ⟨health, hfind, hretry⟩ := recordFailure_out hok h
    have hok' := recordFailure_ok hok t id
    constructor
    · intro hnow
      have hlt : now < t + state.retryTimeoutSeconds := by
        rw [UInt64.lt_iff_toNat_lt, hdeadline]
        exact hnow
      have hle : t ≤ now := (List.pairwise_cons.mp hmonotone).1 now (by simp)
      rw [if_neg (UInt64.not_le.mpr (UInt64.lt_of_le_of_lt hle hlt))] at hretry
      obtain ⟨health', hfind', hretry'⟩ := run_out hok' hfind hretry hlists
        fun call hcall time htime => UInt64.lt_of_le_of_lt (hmonotone.le call hcall time htime) hlt
      exact ring_out (run_ok hok' calls) hfind' hretry' hlt
    · intro hnow hnot
      have hone : health.nextRetry = some (t + state.retryTimeoutSeconds) ∨
          health.nextRetry = none := by
        rw [hretry]
        split
        · exact .inr rfl
        · exact .inl rfl
      obtain ⟨health', hfind', hretry'⟩ := run_back hok' hfind hone hlists hnot
      refine ring_in (run_ok hok' calls) hfind' ?_
      intro deadline hd
      rcases hretry' with hretry' | hretry'
      · cases hretry'.symm.trans hd
        rw [UInt64.le_iff_toNat_le, hdeadline]
        exact hnow
      · cases hretry'.symm.trans hd

/-! ### A member that fails at its first request -/

def sampleMember : RingMember := ⟨"flywheel-1", ⟨.v4 0x0a000002#32, 8080⟩⟩

theorem sample_ejects (sha256 : Bytes → Digest) (timeout : UInt64) :
    ((new sha256 1 timeout).recordFailure
      ((new sha256 1 timeout).after [.applySnapshot 1 [sampleMember]]) 1 "flywheel-1").1 =
        true := by
  rw [recordFailure_iff (after_ok _ _)]
  refine ⟨⟨sampleMember, 0, none⟩, ?_, rfl, ?_⟩
  · rw [after, perform, applySnapshot_find]
    rfl
  · rfl

/-- With the timeout the test uses, the member is out for thirty seconds, whatever the hash. -/
theorem ejection_window_thirty :
    ¬ ∃ sha256 : Bytes → Digest, ¬ (new sha256 1 30).EjectionWindow
      ((new sha256 1 30).after [.applySnapshot 1 [sampleMember]]) 1 "flywheel-1" := by
  rintro ⟨sha256, hnot⟩
  have hfits : (1 : UInt64).toNat + (30 : UInt64).toNat < 2 ^ 64 := by decide
  exact hnot ((ejection_window_iff (new sha256 1 30) _ 1 "flywheel-1" (sample_ejects sha256 30)).mpr
    hfits)

/-- With the longest timeout, it is not out at all. -/
theorem ejection_window_wraps :
    ¬ ∃ sha256 : Bytes → Digest, (new sha256 1 18446744073709551615).EjectionWindow
      ((new sha256 1 18446744073709551615).after [.applySnapshot 1 [sampleMember]]) 1
        "flywheel-1" := by
  rintro ⟨sha256, hwindow⟩
  have hwraps : 2 ^ 64 ≤ (1 : UInt64).toNat + (18446744073709551615 : UInt64).toNat := by decide
  exact not_ejectionWindow (after_ok _ _) (sample_ejects sha256 _) hwraps hwindow

end RingState

end Flywheel.Agent
