import Flywheel.Agent.Forward
import Flywheel.Lib.Totals

/-!
# What the requests have counted

What a request has counted so far is a function of its stage (`Forward.marks`), and a step moves
the counters by what it moves that (`step_moved`). A failed send that the shard is to blame for
adds one to what the ring holds against it, and an ejection takes `failure_limit` of them
(`recordSendFailure_charges`).
-/

set_option autoImplicit false

namespace Flywheel.Agent

open Lib Http

/-! ## What a request has counted -/

/-- One, if so. -/
def one (b : Bool) : Nat := if b then 1 else 0

def Fate.marks (r : Inbound) : Fate → List Counter
  | .refused _ => [.forwardDuration]
  | .noOwner =>
    r.asPrefetch .prefetchUnavailable ++ [(degrade r.routed.routeClass true).1, .forwardDuration]
  | .forwarded _ reply =>
    Counter.forwarded ::
      (r.asPrefetch (prefetchOutcome reply.status) ++ [Counter.forwardDuration])
  | .failed _ error ejected =>
    (if error.blames then Counter.forwardFailures :: if ejected then [.ejections] else [] else []) ++
      (r.asPrefetch .prefetchUnavailable ++
        [(degrade r.routed.routeClass false).1, .forwardDuration])
  | .abandoned _ => []

def Stage.fate : Stage → Option Fate
  | .streaming fate .. | .closed fate .. => some fate
  | _ => none

def Stage.marks (r : Inbound) : Stage → List Counter
  | .streaming fate .. => fate.marks r
  | .closed fate _ _ completed =>
    fate.marks r ++ r.asPrefetch (if completed then .prefetchCompleted else .prefetchCancelled)
  | _ => []

namespace Forward

def marks : Forward → List Counter
  | .idle => []
  | .request r stage => Counter.requests :: (r.asPrefetch .prefetchRequests ++ stage.marks r)

/-- A prefetch has an observation until its body is dropped. -/
def observed : Forward → Nat
  | .request _ (.closed ..) | .idle => 0
  | .request r _ => one r.isPrefetch

/-- The bytes of a prefetch, once its body is dropped. -/
def streamed : Forward → Nat
  | .request r (.closed _ _ sent _) => if r.isPrefetch then sent.toNat else 0
  | _ => 0

def fate : Forward → Option Fate
  | .request _ stage => stage.fate
  | .idle => none

end Forward

section Counts

variable {ι : Type} {state : RingState} {display : SocketAddr → String} {i : ι} {e : Event}
  {s s' : AgentState ι} {t t' : Forward}

@[simp] theorem record_count (cs : List Counter) (c : Counter) :
    (s.record cs).metrics.count c = s.metrics.count c + cs.count c := rfl

@[simp] theorem record_inFlight (cs : List Counter) :
    (s.record cs).metrics.prefetchInFlight = s.metrics.prefetchInFlight := rfl

@[simp] theorem record_bytes (cs : List Counter) :
    (s.record cs).metrics.prefetchResponseBytes = s.metrics.prefetchResponseBytes := rfl

/-- What a step moves in the counters it moves in what the request has counted. -/
structure Moved (s : AgentState ι) (t : Forward) (s' : AgentState ι) (t' : Forward) : Prop where
  count : ∀ c, s'.metrics.count c + t.marks.count c = s.metrics.count c + t'.marks.count c
  inFlight : s'.metrics.prefetchInFlight + t.observed = s.metrics.prefetchInFlight + t'.observed
  bytes : s'.metrics.prefetchResponseBytes + t.streamed =
    s.metrics.prefetchResponseBytes + t'.streamed

theorem record_record (metrics : AgentMetrics) (cs ds : List Counter) :
    (metrics.record cs).record ds = metrics.record (cs ++ ds) := by
  simp only [AgentMetrics.record, List.count_append, Nat.add_assoc]

theorem recordSendFailure_metrics (owner : RingMember) (error : SendError) (now : UInt64) :
    (recordSendFailure state owner error now s).2.metrics = s.metrics.record
      (if error.blames then
        Counter.forwardFailures ::
          if (recordSendFailure state owner error now s).1 then [.ejections] else []
      else []) := by
  unfold recordSendFailure
  split
  · rfl
  · rfl

/-- The response is made. -/
theorem moved_answered {r : Inbound} {stage : Stage} {fate : Fate} {response : Answer}
    (hmarks : stage.marks r = []) (hfate : stage.fate = none)
    (hs : s'.metrics = s.metrics.record (fate.marks r)) :
    Moved s (.request r stage) s' (.request r (.answered fate response)) := by
  have hanswered : (Stage.answered fate response).marks r = fate.marks r := rfl
  refine ⟨fun c => ?_, ?_, ?_⟩
  · simp only [hs, AgentMetrics.record, Forward.marks, hmarks, hanswered, List.count_cons,
      List.count_append, List.count_nil]
    omega
  · rw [hs]
    cases stage with
    | closed => cases hfate
    | _ => rfl
  · rw [hs]
    cases stage with
    | closed => cases hfate
    | _ => rfl

/-- The observation is dropped. -/
theorem moved_closed {r : Inbound} {stage : Stage} {fate : Fate} {response : Option Answer}
    {sent : UInt64} {completed : Bool} (hopen : (Forward.request r stage).observed = one r.isPrefetch)
    (hstreamed : (Forward.request r stage).streamed = 0) (hmarks : stage.marks r = fate.marks r) :
    Moved s (.request r stage) (s.dropObservation r sent completed)
      (.request r (.closed fate response sent completed)) := by
  have hclosed : (Stage.closed fate response sent completed).marks r = fate.marks r ++
      r.asPrefetch (if completed then .prefetchCompleted else .prefetchCancelled) := rfl
  refine ⟨fun c => ?_, ?_, ?_⟩
  · simp only [Forward.marks, hmarks, hclosed, AgentState.dropObservation, List.count_cons,
      List.count_append, Inbound.asPrefetch]
    split
    · simp only [AgentMetrics.prefetchFinished, AgentMetrics.record]
      omega
    · simp only [List.count_nil]
      omega
  · rw [hopen, AgentState.dropObservation, one]
    split
    · simp [AgentMetrics.prefetchFinished, Forward.observed]
    · simp [Forward.observed]
  · rw [hstreamed, AgentState.dropObservation]
    simp only [Forward.streamed]
    split
    · simp [AgentMetrics.prefetchFinished]
    · simp

theorem forwardStep_moved {r : Inbound} {stage stage' : Stage}
    (h : forwardStep state display i r stage e s = some (s', stage')) :
    Moved s (.request r stage) s' (.request r stage') := by
  cases stage with
  | classify =>
    cases e with
    | next =>
      rw [forwardStep] at h
      split at h
      · cases h
        exact moved_answered rfl rfl rfl
      · split at h
        · cases h
          exact moved_answered rfl rfl rfl
        · cases h
          exact ⟨fun _ => rfl, rfl, rfl⟩
    | _ => cases h
  | route position =>
    cases e with
    | look now =>
      simp only [forwardStep] at h
      split at h
      · cases h
        exact moved_answered rfl rfl rfl
      · cases h
        exact ⟨fun _ => rfl, rfl, rfl⟩
    | _ => cases h
  | sending owner =>
    cases e with
    | reply reply =>
      cases h
      exact moved_answered rfl rfl rfl
    | error error now =>
      obtain ⟨hs, hstage⟩ := Prod.mk.inj (Option.some.inj h)
      rw [← hs, ← hstage]
      refine moved_answered rfl rfl ?_
      show (recordSendFailure state owner error now s).2.metrics.record _ = _
      rw [recordSendFailure_metrics, record_record]
      rfl
    | leave =>
      cases h
      exact moved_closed rfl rfl rfl
    | _ => cases h
  | streaming fate response sent rest =>
    cases e with
    | poll =>
      cases rest with
      | nil =>
        cases h
        exact moved_closed rfl rfl rfl
      | cons chunk rest =>
        cases h
        exact ⟨fun _ => rfl, rfl, rfl⟩
    | leave =>
      cases h
      exact moved_closed rfl rfl rfl
    | _ => cases h
  | closed => cases e <;> cases h

theorem step_moved (h : Forward.step state display i e s t = some (s', t')) :
    Moved s t s' t' := by
  cases t with
  | idle =>
    cases e with
    | arrive r =>
      rw [Forward.step] at h
      split at h
      · cases h
      · obtain ⟨hs, ht⟩ := Prod.mk.inj (Option.some.inj h)
        rw [← hs, ← ht]
        refine ⟨fun c => ?_, ?_, ?_⟩
        · simp only [Forward.marks, Inbound.asPrefetch, Stage.marks, List.count_cons,
            List.count_append, List.count_nil]
          split
          · simp only [AgentMetrics.prefetchStarted, AgentState.record, AgentMetrics.record,
              List.count_cons, List.count_nil]
            omega
          · simp only [AgentState.record, AgentMetrics.record, List.count_cons, List.count_nil]
            omega
        · simp only [Forward.observed, one]
          split
          · simp [AgentMetrics.prefetchStarted, AgentState.record, AgentMetrics.record]
          · simp [AgentState.record, AgentMetrics.record]
        · simp only [Forward.streamed]
          split
          · rfl
          · rfl
    | _ => cases h
  | request r stage =>
    obtain ⟨⟨s'', stage'⟩, hstep, heq⟩ := Option.map_eq_some_iff.mp h
    cases heq
    exact forwardStep_moved hstep

/-! ## The counters -/

def Fate.isRefused : Fate → Bool
  | .refused _ => true
  | _ => false

def Fate.isAbandoned : Fate → Bool
  | .abandoned _ => true
  | _ => false

namespace Forward

def isRefused (t : Forward) : Bool := t.fate.any Fate.isRefused

def isAbandoned (t : Forward) : Bool := t.fate.any Fate.isAbandoned

/-- No response is made. -/
def isWaiting : Forward → Bool
  | .request _ stage => stage.fate.isNone
  | .idle => false

def isPrefetch : Forward → Bool
  | .request r _ => r.isPrefetch
  | .idle => false

end Forward

/-- Each degraded response is counted in one of three ways. -/
theorem degrade_counted (routeClass : RouteClass) (emptyRing : Bool) :
    (degrade routeClass emptyRing).1 = .synthesizedMisses ∨
      (degrade routeClass emptyRing).1 = .synthesizedBypasses ∨
      (degrade routeClass emptyRing).1 = .unavailable := by
  cases routeClass with
  | buildCacheRead => exact .inl rfl
  | buildCacheWrite => exact .inr (.inl rfl)
  | passthrough => exact .inr (.inr rfl)

theorem prefetchOutcome_counted (status : Nat) :
    prefetchOutcome status = .prefetchHits ∨ prefetchOutcome status = .prefetchMisses ∨
      prefetchOutcome status = .prefetchUnavailable := by
  unfold prefetchOutcome
  split
  · exact .inl rfl
  · split
    · exact .inr (.inl rfl)
    · exact .inr (.inr rfl)

/-- Marks that count the response once, and a prefetch once more under its outcome. -/
def Tallied (isPrefetch refused abandoned : Bool) (marks : List Counter) : Prop :=
  (∀ c ∈ marks, c ≠ .requests ∧ c ≠ .prefetchRequests ∧ c ≠ .prefetchCompleted ∧
    c ≠ .prefetchCancelled) ∧
  marks.count .forwardDuration + one abandoned = 1 ∧
  marks.count .forwarded + marks.count .synthesizedMisses + marks.count .synthesizedBypasses +
    marks.count .unavailable + one refused + one abandoned = 1 ∧
  marks.count .prefetchHits + marks.count .prefetchMisses + marks.count .prefetchUnavailable +
    one (isPrefetch && refused) + one (isPrefetch && abandoned) = one isPrefetch

instance (isPrefetch refused abandoned : Bool) (marks : List Counter) :
    Decidable (Tallied isPrefetch refused abandoned marks) :=
  inferInstanceAs (Decidable (_ ∧ _ ∧ _ ∧ _))

theorem Fate.tallied (r : Inbound) (fate : Fate) :
    Tallied r.isPrefetch fate.isRefused fate.isAbandoned (fate.marks r) := by
  cases fate with
  | refused status =>
    show Tallied r.isPrefetch true false [.forwardDuration]
    cases r.isPrefetch <;> decide
  | noOwner =>
    show Tallied r.isPrefetch false false _
    rw [Fate.marks, Inbound.asPrefetch]
    rcases degrade_counted r.routed.routeClass true with h | h | h <;> rw [h] <;>
      cases r.isPrefetch <;> decide
  | forwarded owner reply =>
    show Tallied r.isPrefetch false false _
    rw [Fate.marks, Inbound.asPrefetch]
    rcases prefetchOutcome_counted reply.status with h | h | h <;> rw [h] <;>
      cases r.isPrefetch <;> decide
  | failed owner error ejected =>
    show Tallied r.isPrefetch false false _
    rw [Fate.marks, Inbound.asPrefetch]
    rcases degrade_counted r.routed.routeClass false with h | h | h <;> rw [h] <;>
      cases r.isPrefetch <;> cases error.blames <;> cases ejected <;> decide
  | abandoned owner =>
    show Tallied r.isPrefetch false true []
    cases r.isPrefetch <;> decide

theorem Tallied.count_eq_zero {isPrefetch refused abandoned : Bool} {marks : List Counter}
    (h : Tallied isPrefetch refused abandoned marks) :
    marks.count .requests = 0 ∧ marks.count .prefetchRequests = 0 ∧
      marks.count .prefetchCompleted = 0 ∧ marks.count .prefetchCancelled = 0 := by
  refine ⟨?_, ?_, ?_, ?_⟩
  · exact List.count_eq_zero.mpr fun hc => (h.1 _ hc).1 rfl
  · exact List.count_eq_zero.mpr fun hc => (h.1 _ hc).2.1 rfl
  · exact List.count_eq_zero.mpr fun hc => (h.1 _ hc).2.2.1 rfl
  · exact List.count_eq_zero.mpr fun hc => (h.1 _ hc).2.2.2 rfl

/-- A request is counted once under what became of it, and a prefetch once more. -/
structure Forward.Counted (t : Forward) (count : Counter → Nat) : Prop where
  response : count .requests = count .forwarded + count .synthesizedMisses +
    count .synthesizedBypasses + count .unavailable + one t.isRefused + one t.isAbandoned +
      one t.isWaiting
  duration : count .requests = count .forwardDuration + one t.isAbandoned + one t.isWaiting
  outcome : count .prefetchRequests = count .prefetchHits + count .prefetchMisses +
    count .prefetchUnavailable + one (t.isPrefetch && t.isRefused) +
      one (t.isPrefetch && t.isAbandoned) + one (t.isPrefetch && t.isWaiting)
  body : count .prefetchRequests = t.observed + count .prefetchCompleted +
    count .prefetchCancelled

theorem count_asPrefetch (r : Inbound) (c d : Counter) :
    (r.asPrefetch d).count c = if d = c then one r.isPrefetch else 0 := by
  rw [Inbound.asPrefetch, one]
  split
  · simp [List.count_singleton]
  · simp

theorem count_marks (r : Inbound) (stage : Stage) (c : Counter) :
    (Forward.request r stage).marks.count c = (if Counter.requests = c then 1 else 0) +
      (if Counter.prefetchRequests = c then one r.isPrefetch else 0) +
        (stage.marks r).count c := by
  simp only [Forward.marks, List.count_cons, List.count_append, count_asPrefetch, beq_iff_eq]
  omega

theorem count_closed (r : Inbound) (fate : Fate) (response : Option Answer) (sent : UInt64)
    (completed : Bool) (c : Counter) : ((Stage.closed fate response sent completed).marks r).count c = (fate.marks r).count c +
      if (if completed then Counter.prefetchCompleted else .prefetchCancelled) = c then
        one r.isPrefetch else 0 := by
  rw [Stage.marks, List.count_append, count_asPrefetch]

@[simp] theorem one_false : one false = 0 := rfl

@[simp] theorem one_true : one true = 1 := rfl

theorem Forward.counted (t : Forward) : t.Counted fun c => t.marks.count c := by
  cases t with
  | idle => exact ⟨rfl, rfl, rfl, rfl⟩
  | request r stage =>
    have hwaiting : stage.fate = none → stage.marks r = [] →
        (request r stage).observed = one r.isPrefetch →
        (request r stage).Counted fun c => (request r stage).marks.count c := by
      intro hfate hmarks hobserved
      constructor <;> simp [count_marks, hmarks, hobserved, isRefused, isAbandoned, isWaiting,
        Forward.fate, hfate, isPrefetch]
    have hanswered : ∀ fate, stage.fate = some fate →
        (∀ c, c ≠ .prefetchCompleted → c ≠ .prefetchCancelled →
          (stage.marks r).count c = (fate.marks r).count c) →
        (request r stage).observed + (stage.marks r).count .prefetchCompleted +
          (stage.marks r).count .prefetchCancelled = one r.isPrefetch →
        (request r stage).Counted fun c => (request r stage).marks.count c := by
      intro fate hfate hmarks hobserved
      have htallied := fate.tallied r
      obtain ⟨hr, hp, -, -⟩ := htallied.count_eq_zero
      obtain ⟨-, hduration, hresponse, houtcome⟩ := htallied
      constructor <;> simp [count_marks, hmarks, isRefused, isAbandoned, isWaiting,
        Forward.fate, hfate, isPrefetch] <;> omega
    cases stage with
    | streaming fate response sent rest =>
      obtain ⟨-, -, hcompleted, hcancelled⟩ := (fate.tallied r).count_eq_zero
      refine hanswered fate rfl (fun _ _ _ => rfl) ?_
      show one r.isPrefetch + (fate.marks r).count _ + (fate.marks r).count _ = _
      omega
    | closed fate response sent completed =>
      obtain ⟨-, -, hcompleted, hcancelled⟩ := (fate.tallied r).count_eq_zero
      refine hanswered fate rfl (fun c hne hne' => ?_) ?_
      · rw [count_closed, if_neg (by cases completed; exact hne'.symm; exact hne.symm), Nat.add_zero]
      · rw [count_closed, count_closed, hcompleted, hcancelled]
        cases completed <;> simp [observed]
    | _ => exact hwaiting rfl rfl rfl

end Counts

/-! ## Failures and ejections -/

namespace RingState

variable {state : RingState} {inner : RingInner} {call : Call} {id : String}

/-- The failures of a member that is not ejected, which count toward its ejection. -/
def pending (inner : RingInner) (id : String) : Nat :=
  (inner.find id).elim 0 fun health =>
    if health.nextRetry.isSome then 0 else health.failures.toNat

theorem pending_of_find {health : MemberHealth} (hfind : inner.find id = some health)
    (hnone : health.nextRetry = none) : pending inner id = health.failures.toNat := by
  rw [pending, hfind, Option.elim_some, hnone]
  rfl

/-- There is nothing pending, or a member that is not ejected. -/
theorem pending_cases (inner : RingInner) (id : String) :
    pending inner id = 0 ∨ ∃ health, inner.find id = some health ∧ health.nextRetry = none ∧
      pending inner id = health.failures.toNat := by
  cases hfind : inner.find id with
  | none =>
    refine .inl ?_
    rw [pending, hfind]
    rfl
  | some health =>
    cases hretry : health.nextRetry with
    | none => exact .inr ⟨health, rfl, hretry, pending_of_find hfind hretry⟩
    | some deadline =>
      refine .inl ?_
      rw [pending, hfind, Option.elim_some, hretry]
      rfl

theorem toNat_countFailure_le (failures : UInt32) :
    (countFailure failures).toNat ≤ failures.toNat + 1 := by
  unfold countFailure
  split
  · rw [UInt32.toNat_add]
    exact Nat.mod_le _ _
  · omega

/-- Only a failure of the member adds to what is pending. -/
theorem pending_perform (hok : inner.Ok state) (call : Call) (id : String) :
    pending (state.perform inner call) id ≤ pending inner id + one (call.isFailure id) := by
  rcases pending_cases (state.perform inner call) id with hzero | ⟨health, hfind, hnone, heq⟩
  · omega
  · have hcounted := perform_counted hok hfind hnone
    rw [heq]
    generalize health.failures = failures at hcounted
    cases hcounted with
    | cleared =>
      show 0 ≤ _
      omega
    | @counted _ hfailure before hbefore hno =>
      rw [pending_of_find hbefore hno, hfailure]
      exact toNat_countFailure_le before.failures
    | @kept _ hfailure before hbefore hno =>
      rw [pending_of_find hbefore hno, hfailure]
      exact Nat.le_refl _

theorem pending_quiet (hok : inner.Ok state) (hcall : ∀ id, call.isFailure id = false)
    (id : String) : pending (state.perform inner call) id ≤ pending inner id := by
  have hle := pending_perform hok call id
  rw [hcall id] at hle
  exact hle

/-- A failure that ejects the member uses up as many as the limit. -/
theorem pending_ejected (hok : inner.Ok state) {now : UInt64}
    (hejected : (state.recordFailure inner now id).1 = true) :
    pending (state.perform inner (.recordFailure now id)) id + state.failureLimit.toNat ≤
      pending inner id + 1 := by
  rcases recordFailure_cases hok.ordered now id with
    ⟨-, heq⟩ | ⟨health, hfind, ⟨-, heq⟩ | ⟨hno, hlimit, -⟩⟩
  · rw [heq] at hejected
    cases hejected
  · rw [heq] at hejected
    cases hejected
  · have hcount := UInt32.le_iff_toNat_le.mp (UInt32.not_lt.mp hlimit)
    have hle := toNat_countFailure_le health.failures
    have hzero : pending (state.perform inner (.recordFailure now id)) id = 0 := by
      rcases pending_cases (state.perform inner (.recordFailure now id)) id with
        hzero | ⟨after, hafter, hnone, heq⟩
      · exact hzero
      · have hcounted := perform_counted hok hafter hnone
        rw [heq]
        generalize after.failures = failures at hcounted
        cases hcounted with
        | cleared => rfl
        | counted _ _ hbefore _ hbelow =>
          cases hfind.symm.trans hbefore
          exact absurd hbelow hlimit
        | kept _ hfailure =>
          rw [Call.isFailure, beq_self_eq_true] at hfailure
          cases hfailure
    rw [hzero, pending_of_find hfind hno]
    omega

end RingState

def Fate.blames (id : String) : Fate → Bool
  | .failed owner error _ => owner.id == id && error.blames
  | _ => false

def Fate.ejects (id : String) : Fate → Bool
  | .failed owner error ejected => owner.id == id && (error.blames && ejected)
  | _ => false

namespace Forward

/-- The request failed for the member, which was to blame. -/
def blames (id : String) (t : Forward) : Bool := t.fate.any (Fate.blames id)

/-- That failure ejected the member. -/
def ejects (id : String) (t : Forward) : Bool := t.fate.any (Fate.ejects id)

end Forward

section Ejections

variable {ι : Type} {state : RingState} {display : SocketAddr → String} {i : ι} {e : Event}
  {s s' : AgentState ι} {t t' : Forward}

/-- A failed send keeps the invariant of the routing state. -/
theorem recordSendFailure_ok (hok : s.ring.Ok state) (owner : RingMember) (error : SendError)
    (now : UInt64) : (recordSendFailure state owner error now s).2.ring.Ok state := by
  unfold recordSendFailure
  split
  · exact RingState.recordFailure_ok hok now owner.id
  · exact hok

/-- A failed send adds one failure to what is pending, or uses up as many as the limit. -/
theorem recordSendFailure_charges (hok : s.ring.Ok state) (owner : RingMember)
    (error : SendError) (now : UInt64) (id : String) :
    let x := recordSendFailure state owner error now s
    state.failureLimit.toNat * one (Fate.ejects id (.failed owner error x.1)) +
        RingState.pending x.2.ring id ≤
      RingState.pending s.ring id + one (Fate.blames id (.failed owner error x.1)) := by
  unfold recordSendFailure
  by_cases hblames : error.blames = true
  · rw [if_pos hblames]
    show _ * one (owner.id == id && (error.blames && (state.recordFailure s.ring now owner.id).1)) +
      RingState.pending (state.perform s.ring (.recordFailure now owner.id)) id ≤
        _ + one (owner.id == id && error.blames)
    rw [hblames, Bool.true_and, Bool.and_true]
    by_cases hid : owner.id = id
    · subst hid
      rw [beq_self_eq_true, Bool.true_and]
      cases hejected : (state.recordFailure s.ring now owner.id).1 with
      | true =>
        have hle := RingState.pending_ejected hok hejected
        simp only [one_true]
        omega
      | false =>
        have hle := RingState.pending_perform hok (.recordFailure now owner.id) owner.id
        rw [RingState.Call.isFailure, beq_self_eq_true] at hle
        simp only [one_false, one_true] at hle ⊢
        omega
    · have hle := RingState.pending_perform hok (.recordFailure now owner.id) id
      have hne : (owner.id == id) = false := beq_eq_false_iff_ne.mpr hid
      rw [RingState.Call.isFailure, hne] at hle
      rw [hne]
      simp only [Bool.false_and, one_false] at hle ⊢
      omega
  · rw [if_neg hblames]
    have hfalse : error.blames = false := by simpa using hblames
    simp [Fate.ejects, Fate.blames, hfalse]

/-- What a step does to the routing state: a call that is no failure, or the failure of a
send. -/
inductive Routed (state : RingState) (s : AgentState ι) (t : Forward) (s' : AgentState ι)
    (t' : Forward) : Prop
  | quiet (hblames : ∀ id, t'.blames id = t.blames id) (hejects : ∀ id, t'.ejects id = t.ejects id)
    (hring : s'.ring = s.ring ∨ ∃ call : RingState.Call, (∀ id, call.isFailure id = false) ∧
      s'.ring = state.perform s.ring call)
  | failed {r : Inbound} {owner : RingMember} {error : SendError} {now : UInt64}
    (ht : t.fate = none)
    (ht' : t'.fate = some (.failed owner error (recordSendFailure state owner error now s).1))
    (hring : s'.ring = (recordSendFailure state owner error now s).2.ring)

theorem routed_of_fate (hfate : t.fate = none)
    (hfate' : ∀ fate, t'.fate = some fate → (∀ id, fate.blames id = false) ∧
      ∀ id, fate.ejects id = false)
    (hring : s'.ring = s.ring ∨ ∃ call : RingState.Call, (∀ id, call.isFailure id = false) ∧
      s'.ring = state.perform s.ring call) : Routed state s t s' t' := by
  refine .quiet (fun id => ?_) (fun id => ?_) hring
  · rw [Forward.blames, Forward.blames, hfate]
    cases h : t'.fate with
    | none => rfl
    | some fate => exact (hfate' fate h).1 id
  · rw [Forward.ejects, Forward.ejects, hfate]
    cases h : t'.fate with
    | none => rfl
    | some fate => exact (hfate' fate h).2 id

theorem dropObservation_ring (r : Inbound) (bytes : UInt64) (completed : Bool) :
    (s.dropObservation r bytes completed).ring = s.ring := by
  unfold AgentState.dropObservation
  split
  · rfl
  · rfl

theorem forwardStep_routed {r : Inbound} {stage stage' : Stage}
    (h : forwardStep state display i r stage e s = some (s', stage')) :
    Routed state s (.request r stage) s' (.request r stage') := by
  have hclean : ∀ fate : Fate, (∀ owner error ejected, fate ≠ .failed owner error ejected) →
      (∀ id, fate.blames id = false) ∧ ∀ id, fate.ejects id = false := by
    intro fate hfate
    cases fate with
    | failed owner error ejected => exact absurd rfl (hfate owner error ejected)
    | _ => exact ⟨fun _ => rfl, fun _ => rfl⟩
  cases stage with
  | classify =>
    cases e with
    | next =>
      rw [forwardStep] at h
      split at h
      · cases h
        exact routed_of_fate rfl (by rintro _ ⟨⟩; exact hclean _ (by rintro _ _ _ ⟨⟩)) (.inl rfl)
      · split at h
        · cases h
          exact routed_of_fate rfl (by rintro _ ⟨⟩; exact hclean _ (by rintro _ _ _ ⟨⟩)) (.inl rfl)
        · cases h
          exact routed_of_fate rfl (by rintro _ ⟨⟩) (.inl rfl)
    | _ => cases h
  | route position =>
    cases e with
    | look now =>
      have hlook : s'.ring = state.perform s.ring (.ring now) := by
        simp only [forwardStep] at h
        split at h <;> cases h <;> rfl
      refine routed_of_fate rfl ?_ (.inr ⟨.ring now, fun _ => rfl, hlook⟩)
      simp only [forwardStep] at h
      split at h
      · cases h
        rintro _ ⟨⟩
        exact hclean _ (by rintro _ _ _ ⟨⟩)
      · cases h
        rintro _ ⟨⟩
    | _ => cases h
  | sending owner =>
    cases e with
    | reply reply =>
      cases h
      refine routed_of_fate rfl ?_ (.inr ⟨.recordSuccess owner.id, fun _ => rfl, rfl⟩)
      rintro _ ⟨⟩
      exact hclean _ (by rintro _ _ _ ⟨⟩)
    | error error now =>
      obtain ⟨hs, hstage⟩ := Prod.mk.inj (Option.some.inj h)
      rw [← hs, ← hstage]
      exact .failed (r := r) rfl rfl rfl
    | leave =>
      cases h
      refine routed_of_fate rfl ?_ (.inl (dropObservation_ring ..))
      rintro _ ⟨⟩
      exact hclean _ (by rintro _ _ _ ⟨⟩)
    | _ => cases h
  | streaming fate response sent rest =>
    cases e with
    | poll =>
      cases rest with
      | nil =>
        cases h
        exact .quiet (fun _ => rfl) (fun _ => rfl) (.inl (dropObservation_ring ..))
      | cons chunk rest =>
        cases h
        exact .quiet (fun _ => rfl) (fun _ => rfl) (.inl rfl)
    | leave =>
      cases h
      exact .quiet (fun _ => rfl) (fun _ => rfl) (.inl (dropObservation_ring ..))
    | _ => cases h
  | closed => cases e <;> cases h

theorem step_routed (h : Forward.step state display i e s t = some (s', t')) :
    Routed state s t s' t' := by
  cases t with
  | idle =>
    cases e with
    | arrive r =>
      rw [Forward.step] at h
      split at h
      · cases h
      · obtain ⟨hs, ht⟩ := Prod.mk.inj (Option.some.inj h)
        rw [← hs, ← ht]
        refine .quiet (fun _ => rfl) (fun _ => rfl) (.inl ?_)
        split
        · rfl
        · rfl
    | _ => cases h
  | request r stage =>
    obtain ⟨⟨s'', stage'⟩, hstep, heq⟩ := Option.map_eq_some_iff.mp h
    cases heq
    exact forwardStep_routed hstep

end Ejections

/-- A failure is counted once, under the shard that it is counted against. -/
theorem Fate.count_failures (r : Inbound) (fate : Fate) {ids : Finset String}
    (hids : ∀ owner error ejected, fate = .failed owner error ejected → owner.id ∈ ids) :
    (fate.marks r).count .forwardFailures = ∑ id ∈ ids, one (fate.blames id) ∧
      (fate.marks r).count .ejections = ∑ id ∈ ids, one (fate.ejects id) := by
  have hquiet : (∀ id, fate.blames id = false) → (∀ id, fate.ejects id = false) →
      (fate.marks r).count .forwardFailures = 0 → (fate.marks r).count .ejections = 0 →
      (fate.marks r).count .forwardFailures = ∑ id ∈ ids, one (fate.blames id) ∧
        (fate.marks r).count .ejections = ∑ id ∈ ids, one (fate.ejects id) := by
    intro hblames hejects hfailures hejections
    simp only [hblames, hejects, hfailures, hejections, one_false, Finset.sum_const_zero, and_self]
  cases fate with
  | refused status => exact hquiet (fun _ => rfl) (fun _ => rfl) rfl rfl
  | abandoned owner => exact hquiet (fun _ => rfl) (fun _ => rfl) rfl rfl
  | noOwner =>
    refine hquiet (fun _ => rfl) (fun _ => rfl) ?_ ?_
    · rw [Fate.marks, List.count_append, count_asPrefetch]
      rcases degrade_counted r.routed.routeClass true with h | h | h <;> rw [h] <;> rfl
    · rw [Fate.marks, List.count_append, count_asPrefetch]
      rcases degrade_counted r.routed.routeClass true with h | h | h <;> rw [h] <;> rfl
  | forwarded owner reply =>
    refine hquiet (fun _ => rfl) (fun _ => rfl) ?_ ?_
    · simp only [Fate.marks, List.count_cons, List.count_append, count_asPrefetch]
      rcases prefetchOutcome_counted reply.status with h | h | h <;> rw [h] <;> rfl
    · simp only [Fate.marks, List.count_cons, List.count_append, count_asPrefetch]
      rcases prefetchOutcome_counted reply.status with h | h | h <;> rw [h] <;> rfl
  | failed owner error ejected =>
    have hmem := hids owner error ejected rfl
    have hone : ∀ b : Bool, ∑ id ∈ ids, one (owner.id == id && b) = one b := fun b => by
      rw [Finset.sum_eq_single owner.id, beq_self_eq_true, Bool.true_and]
      · intro id _ hne
        rw [beq_eq_false_iff_ne.mpr (Ne.symm hne), Bool.false_and]
        rfl
      · intro hnot
        exact absurd hmem hnot
    constructor
    · show _ = ∑ id ∈ ids, one (owner.id == id && error.blames)
      rw [hone, Fate.marks, List.count_append, List.count_append, count_asPrefetch]
      rcases degrade_counted r.routed.routeClass false with h | h | h <;> rw [h] <;>
        cases error.blames <;> cases ejected <;> rfl
    · show _ = ∑ id ∈ ids, one (owner.id == id && (error.blames && ejected))
      rw [hone, Fate.marks, List.count_append, List.count_append, count_asPrefetch]
      rcases degrade_counted r.routed.routeClass false with h | h | h <;> rw [h] <;>
        cases error.blames <;> cases ejected <;> rfl

theorem Forward.count_failures (t : Forward) {ids : Finset String}
    (hids : ∀ owner error ejected, t.fate = some (.failed owner error ejected) → owner.id ∈ ids) :
    t.marks.count .forwardFailures = ∑ id ∈ ids, one (t.blames id) ∧
      t.marks.count .ejections = ∑ id ∈ ids, one (t.ejects id) := by
  cases t with
  | idle => simp [Forward.marks, Forward.blames, Forward.ejects, Forward.fate]
  | request r stage =>
    rw [count_marks, count_marks]
    cases stage with
    | streaming fate response sent rest =>
      have hfate := fate.count_failures r fun owner error ejected heq =>
        hids owner error ejected (congrArg some heq)
      simpa [Stage.marks, Forward.blames, Forward.ejects, Forward.fate, Stage.fate] using hfate
    | closed fate response sent completed =>
      have hfate := fate.count_failures r fun owner error ejected heq =>
        hids owner error ejected (congrArg some heq)
      rw [count_closed, count_closed]
      cases completed <;>
        simpa [Forward.blames, Forward.ejects, Forward.fate, Stage.fate] using hfate
    | _ => simp [Stage.marks, Forward.blames, Forward.ejects, Forward.fate, Stage.fate]

/-- The shard that a failed send was to. -/
def Forward.failedAt (t : Forward) : String :=
  match t.fate with
  | some (.failed owner _ _) => owner.id
  | _ => ""

end Flywheel.Agent
