import Flywheel.Agent.Marks
import Mathlib.Algebra.BigOperators.Ring.Finset

/-!
# The agent over a run

- `fails_open`: what is sent upstream and what the client gets.
- `counters_account`: the counters against the requests, in every state of every run.
- `ejections_paid`: each ejection of a shard takes `failure_limit` failures of sends to it.
-/

set_option autoImplicit false

namespace Flywheel.Agent

open Lib Http

/-! ## Runs -/

section Runs

variable {ι : Type} [DecidableEq ι] {state : RingState} {display : SocketAddr → String}
  {p p' : Sidecar ι}

/-- A request takes a step, or discovery does. -/
theorem fire_cases {a : Action ι} (h : p.fire state display a = some p') :
    (∃ i e, p.fire state display (.request i e) = some p' ∧
      Forward.step state display i e p.shared (p.task i) = some (p'.shared, p'.task i) ∧
      ∀ j, j ≠ i → p'.task j = p.task j) ∨
    (p'.task = p.task ∧ p'.shared.metrics = p.shared.metrics ∧ p'.shared.wire = p.shared.wire ∧
      ∃ call : RingState.Call, (∀ id, call.isFailure id = false) ∧
        p'.shared.ring = state.perform p.shared.ring call) := by
  cases a with
  | request i e =>
    obtain ⟨hown, hother⟩ := Pool.fire_eq_some h
    exact .inl ⟨i, e, h, hown, hother⟩
  | applySnapshot now discovered =>
    cases h
    exact .inr ⟨rfl, rfl, rfl, .applySnapshot now discovered, fun _ => rfl, rfl⟩
  | recordRefreshError error =>
    cases h
    exact .inr ⟨rfl, rfl, rfl, .recordRefreshError error, fun _ => rfl, rfl⟩

variable [Fintype ι]

/-- The counters are what the requests have counted. -/
structure Metered (p : Sidecar ι) : Prop where
  count : ∀ c, p.shared.metrics.count c = p.total fun t => t.marks.count c
  inFlight : p.shared.metrics.prefetchInFlight = p.total Forward.observed
  bytes : p.shared.metrics.prefetchResponseBytes = p.total Forward.streamed

theorem Metered.step (h : Metered p) {a : Action ι} (hstep : p.fire state display a = some p') :
    Metered p' := by
  rcases fire_cases hstep with ⟨i, e, hfire, hown, -⟩ | ⟨htask, hmetrics, -, -⟩
  · have hmoved := step_moved hown
    have htotal : ∀ g : Forward → Nat, p'.total g + g (p.task i) = p.total g + g (p'.task i) :=
      fun g => Pool.total_fire hfire g
    refine ⟨fun c => ?_, ?_, ?_⟩
    · have hc := hmoved.count c
      have hg := htotal fun t => t.marks.count c
      have hbefore := h.count c
      omega
    · have hc := hmoved.inFlight
      have hg := htotal Forward.observed
      have hbefore := h.inFlight
      omega
    · have hc := hmoved.bytes
      have hg := htotal Forward.streamed
      have hbefore := h.bytes
      omega
  · have htotal : ∀ g : Forward → Nat, p'.total g = p.total g := fun g => by
      rw [Pool.total, htask, Pool.total]
    exact ⟨fun c => by rw [hmetrics, htotal, h.count], by rw [hmetrics, htotal, h.inFlight],
      by rw [hmetrics, htotal, h.bytes]⟩

theorem metered_of_reach {G : Sidecar ι → Action ι → Prop}
    (h : (agent state display ι).Reach G p) : Metered p := by
  refine h.invariant ?_ fun x a y hx _ hstep => hx.step hstep
  rintro _ rfl
  have hzero : ∀ g : Forward → Nat, g .idle = 0 → (Sidecar.new (ι := ι) state).total g = 0 :=
    fun g hg => Finset.sum_eq_zero fun i _ => hg
  exact ⟨fun c => (hzero _ rfl).symm, by rw [hzero _ rfl]; rfl, (hzero _ rfl).symm⟩

/-- Who has failed how often. -/
structure Charged (state : RingState) (p : Sidecar ι) : Prop where
  ok : p.shared.ring.Ok state
  paid : ∀ id, state.failureLimit.toNat * p.total (fun t => one (t.ejects id)) +
    RingState.pending p.shared.ring id ≤ p.total fun t => one (t.blames id)

theorem Charged.step (h : Charged state p) {a : Action ι}
    (hstep : p.fire state display a = some p') : Charged state p' := by
  rcases fire_cases hstep with ⟨i, e, hfire, hown, -⟩ | ⟨htask, -, -, call, hcall, hring⟩
  · have htotal : ∀ g : Forward → Nat, p'.total g + g (p.task i) = p.total g + g (p'.task i) :=
      fun g => Pool.total_fire hfire g
    cases step_routed hown with
    | quiet hblames hejects hring =>
      have hle : ∀ id, RingState.pending p'.shared.ring id ≤
          RingState.pending p.shared.ring id := fun id => by
        rcases hring with hsame | ⟨call, hcall, hperform⟩
        · rw [hsame]
        · rw [hperform]
          exact RingState.pending_quiet h.ok hcall id
      refine ⟨?_, fun id => ?_⟩
      · rcases hring with hsame | ⟨call, -, hperform⟩
        · exact hsame ▸ h.ok
        · exact hperform ▸ RingState.perform_ok h.ok call
      · have hb := htotal fun t => one (t.blames id)
        have he := htotal fun t => one (t.ejects id)
        rw [hblames id] at hb
        rw [hejects id] at he
        have hpaid := h.paid id
        have hid := hle id
        rw [Nat.add_right_cancel he, Nat.add_right_cancel hb]
        omega
    | @failed r owner error now ht ht' hring =>
      refine ⟨?_, fun id => ?_⟩
      · rw [hring]
        exact recordSendFailure_ok h.ok owner error now
      · have hb := htotal fun t => one (t.blames id)
        have he := htotal fun t => one (t.ejects id)
        have hcharge := recordSendFailure_charges h.ok owner error now id
        have hpaid := h.paid id
        simp only [Forward.blames, Forward.ejects, ht, ht', Option.any_none, Option.any_some,
          one_false, Nat.add_zero] at hb he
        simp only [Forward.blames, Forward.ejects] at hpaid ⊢
        rw [hb, he, hring, Nat.mul_add]
        omega
  · have htotal : ∀ g : Forward → Nat, p'.total g = p.total g := fun g => by
      rw [Pool.total, htask, Pool.total]
    refine ⟨hring ▸ RingState.perform_ok h.ok call, fun id => ?_⟩
    rw [htotal, htotal, hring]
    exact (Nat.add_le_add_left (RingState.pending_quiet h.ok hcall id) _).trans (h.paid id)

theorem charged_of_reach {G : Sidecar ι → Action ι → Prop}
    (h : (agent state display ι).Reach G p) : Charged state p := by
  refine h.invariant ?_ fun x a y hx _ hstep => hx.step hstep
  rintro _ rfl
  refine ⟨RingState.initial_ok, fun id => ?_⟩
  have hzero : ∀ g : Forward → Nat, g .idle = 0 → (Sidecar.new (ι := ι) state).total g = 0 :=
    fun g hg => Finset.sum_eq_zero fun i _ => hg
  rw [hzero _ rfl, hzero _ rfl]
  exact Nat.le_refl 0

end Runs

/-! ## What is sent and what is answered -/

def Fate.owner : Fate → Option RingMember
  | .forwarded owner _ | .failed owner _ _ | .abandoned owner => some owner
  | .refused _ | .noOwner => none

/-- The shard that was asked. -/
def Stage.asked : Stage → Option RingMember
  | .sending owner => some owner
  | .streaming fate .. | .closed fate .. => fate.owner
  | .classify | .route _ => none

def Stage.response : Stage → Option Answer
  | .streaming _ response _ _ => some response
  | .closed _ response _ _ => response
  | _ => none

/-- What has been sent for a request. -/
def Forward.wire {ι : Type} (display : SocketAddr → String) (i : ι) :
    Forward → List (ι × RingMember × Outbound)
  | .request r stage =>
    (stage.asked.map fun owner => (i, owner, r.outbound (display owner.address))).toList
  | .idle => []

/-- A request that has a place on the continuum. -/
structure Placed (state : RingState) (r : Inbound) : Prop where
  other : r.isChannels = false
  position : keyPosition state.sha256 r.routed.kind r.routed.id ≠ none

/-- A response that the agent makes up, and when it does. -/
inductive Degraded (state : RingState) (r : Inbound) : Option RingMember → Nat → Prop
  | channels (h : r.isChannels = true) : Degraded state r none 501
  | tooLong (hother : r.isChannels = false)
      (h : keyPosition state.sha256 r.routed.kind r.routed.id = none) : Degraded state r none 414
  | read {asked : Option RingMember} (hplaced : Placed state r)
      (h : r.routed.routeClass = .buildCacheRead) : Degraded state r asked 404
  | write {asked : Option RingMember} (hplaced : Placed state r)
      (h : r.routed.routeClass = .buildCacheWrite) : Degraded state r asked 200
  | noOwner (hplaced : Placed state r) (h : r.routed.routeClass = .passthrough) :
    Degraded state r none 503
  | failed {owner : RingMember} (hplaced : Placed state r)
      (h : r.routed.routeClass = .passthrough) : Degraded state r (some owner) 502

/-- A response is what the shard answered, or made up. -/
def Fate.Answers (state : RingState) (r : Inbound) (response : Answer) : Fate → Prop
  | .forwarded _ reply => response = proxiedResponse reply
  | fate => ∃ status, response = bare status ∧ Degraded state r fate.owner status

/-- What is counted for these chunks, each of which is as long as a `usize` says. -/
def Counts (sent : UInt64) (chunks : List Bytes) : Prop :=
  (∀ chunk ∈ chunks, chunk.length < 2 ^ 64) →
    sent.toNat = min chunks.flatten.length (2 ^ 64 - 1)

/-- What a body has delivered is the beginning of what the response has, and is counted. -/
def Stage.Delivered : Stage → Prop
  | .streaming _ response sent rest =>
    ∃ done, response.body = done ++ rest ∧ Counts sent done
  | .closed _ response sent completed =>
    ∃ done rest, response.elim [] Answer.body = done ++ rest ∧ Counts sent done ∧
      (completed = true → rest = [])
  | _ => True

/-- What is true of a request, whatever the others do. -/
structure Told {ι : Type} [DecidableEq ι] (state : RingState) (display : SocketAddr → String)
    (s : AgentState ι) (i : ι) (t : Forward) : Prop where
  wire : s.wire.filter (fun x => x.1 = i) = t.wire display i
  placed : ∀ r position, t = .request r (.route position) →
    r.isChannels = false ∧ keyPosition state.sha256 r.routed.kind r.routed.id = some position
  asked : ∀ r owner, t = .request r (.sending owner) → Placed state r
  answers : ∀ r stage fate response, t = .request r stage → stage.fate = some fate →
    stage.response = some response → fate.Answers state r response
  delivered : ∀ r stage, t = .request r stage → stage.Delivered

section Tell

variable {ι : Type} {state : RingState} {display : SocketAddr → String} {i : ι} {r : Inbound}
  {stage stage' : Stage} {s s' : AgentState ι} {e : Event}

theorem Counts.nil : Counts 0 [] := fun _ => rfl

theorem Counts.append {sent : UInt64} {chunks : List Bytes} (h : Counts sent chunks)
    (chunk : Bytes) :
    Counts (saturatingAdd sent (UInt64.ofNat chunk.length)) (chunks ++ [chunk]) := by
  intro hlen
  have hsent := h fun c hc => hlen c (List.mem_append_left _ hc)
  have hchunk : chunk.length < 2 ^ 64 := hlen chunk (by simp)
  have hflat : (chunks ++ [chunk]).flatten.length = chunks.flatten.length + chunk.length := by
    simp
  rw [toNat_saturatingAdd, hsent, hflat, UInt64.toNat_ofNat', Nat.mod_eq_of_lt hchunk]
  omega

theorem dropObservation_wire (r : Inbound) (bytes : UInt64) (completed : Bool) :
    (s.dropObservation r bytes completed).wire = s.wire := by
  unfold AgentState.dropObservation
  split
  · rfl
  · rfl

theorem recordSendFailure_wire (owner : RingMember) (error : SendError) (now : UInt64) :
    (recordSendFailure state owner error now s).2.wire = s.wire := by
  unfold recordSendFailure
  split
  · rfl
  · rfl

/-- The response that a route degrades to. -/
theorem Placed.degraded (hplaced : Placed state r) (owner : Option RingMember) :
    Degraded state r owner (degrade r.routed.routeClass owner.isNone).2 := by
  cases h : r.routed.routeClass with
  | buildCacheRead => exact .read hplaced h
  | buildCacheWrite => exact .write hplaced h
  | passthrough =>
    cases owner with
    | none => exact .noOwner hplaced h
    | some owner => exact .failed hplaced h

/-- What a step sends, and on whose word. -/
theorem step_sends {t t' : Forward} (h : Forward.step state display i e s t = some (s', t')) :
    s'.wire = s.wire ∨ ∃ r position now owner, t = .request r (.route position) ∧
      (state.ring s.ring now).1.owner position = some owner ∧
      s'.wire = (i, owner, r.outbound (display owner.address)) :: s.wire := by
  cases t with
  | idle =>
    cases e with
    | arrive r =>
      rw [Forward.step] at h
      split at h
      · cases h
      · obtain ⟨hs, -⟩ := Prod.mk.inj (Option.some.inj h)
        rw [← hs]
        split
        · exact .inl rfl
        · exact .inl rfl
    | _ => cases h
  | request r stage =>
    obtain ⟨⟨s'', stage'⟩, hstep, heq⟩ := Option.map_eq_some_iff.mp h
    cases heq
    cases stage with
    | classify =>
      cases e with
      | next =>
        rw [forwardStep] at hstep
        split at hstep
        · cases hstep
          exact .inl rfl
        · split at hstep
          · cases hstep
            exact .inl rfl
          · cases hstep
            exact .inl rfl
      | _ => cases hstep
    | route position =>
      cases e with
      | look now =>
        simp only [forwardStep] at hstep
        split at hstep
        · cases hstep
          exact .inl rfl
        · rename_i owner howner
          cases hstep
          exact .inr ⟨r, position, now, owner, rfl, howner, rfl⟩
      | _ => cases hstep
    | sending owner =>
      cases e with
      | reply reply =>
        cases hstep
        exact .inl rfl
      | error error now =>
        obtain ⟨hs, -⟩ := Prod.mk.inj (Option.some.inj hstep)
        rw [← hs]
        exact .inl (recordSendFailure_wire owner error now)
      | leave =>
        cases hstep
        exact .inl (dropObservation_wire ..)
      | _ => cases hstep
    | streaming fate response sent rest =>
      cases e with
      | poll =>
        cases rest with
        | nil =>
          cases hstep
          exact .inl (dropObservation_wire ..)
        | cons chunk rest =>
          cases hstep
          exact .inl rfl
      | leave =>
        cases hstep
        exact .inl (dropObservation_wire ..)
      | _ => cases hstep
    | closed => cases e <;> cases hstep

variable [DecidableEq ι]

theorem Told.placed_of_route {t : Forward} {position : UInt64} (h : Told state display s i t)
    (ht : t = .request r (.route position)) : Placed state r := by
  obtain ⟨hother, hposition⟩ := h.placed r position ht
  refine ⟨hother, ?_⟩
  rw [hposition]
  exact nofun

theorem Told.answered (h : Told state display s i (.request r stage)) {fate : Fate}
    {response : Answer} (hwire : s'.wire = s.wire) (hasked : stage.asked = fate.owner)
    (hanswers : fate.Answers state r response) :
    Told state display s' i (.request r (.answered fate response)) := by
  refine ⟨?_, ?_, ?_, ?_, ?_⟩
  · rw [hwire, h.wire]
    show (stage.asked.map _).toList = (fate.owner.map _).toList
    rw [hasked]
  · rintro _ _ ⟨⟩
  · rintro _ _ ⟨⟩
  · rintro _ _ _ _ ⟨⟩ ⟨⟩ ⟨⟩
    exact hanswers
  · rintro _ _ ⟨⟩
    exact ⟨[], rfl, .nil⟩

theorem Told.closed {fate : Fate} {response : Answer} {sent : UInt64} {rest : List Bytes}
    (h : Told state display s i (.request r (.streaming fate response sent rest)))
    {completed : Bool} (hrest : completed = true → rest = []) (hwire : s'.wire = s.wire) :
    Told state display s' i (.request r (.closed fate (some response) sent completed)) := by
  refine ⟨?_, ?_, ?_, ?_, ?_⟩
  · rw [hwire, h.wire]
    rfl
  · rintro _ _ ⟨⟩
  · rintro _ _ ⟨⟩
  · rintro _ _ _ _ ⟨⟩ ⟨⟩ ⟨⟩
    exact h.answers r (.streaming fate response sent rest) fate response rfl rfl rfl
  · rintro _ _ ⟨⟩
    obtain ⟨done, hbody, hsent⟩ := h.delivered r (.streaming fate response sent rest) rfl
    exact ⟨done, rest, hbody, hsent, hrest⟩

theorem Told.forwardStep (h : Told state display s i (.request r stage))
    (hstep : forwardStep state display i r stage e s = some (s', stage')) :
    Told state display s' i (.request r stage') := by
  cases stage with
  | classify =>
    cases e with
    | next =>
      rw [Agent.forwardStep] at hstep
      split at hstep
      · rename_i hchannels
        cases hstep
        exact h.answered rfl rfl ⟨501, rfl, .channels hchannels⟩
      · rename_i hchannels
        rw [Bool.not_eq_true] at hchannels
        split at hstep
        · rename_i hkey
          cases hstep
          exact h.answered rfl rfl ⟨414, rfl, .tooLong hchannels hkey⟩
        · rename_i hkey
          cases hstep
          refine ⟨h.wire, ?_, ?_, ?_, ?_⟩
          · rintro _ _ ⟨⟩
            exact ⟨hchannels, hkey⟩
          · rintro _ _ ⟨⟩
          · rintro _ _ _ _ ⟨⟩ ⟨⟩
          · rintro _ _ ⟨⟩
            exact trivial
    | _ => cases hstep
  | route position =>
    cases e with
    | look now =>
      simp only [Agent.forwardStep] at hstep
      split at hstep
      · cases hstep
        exact h.answered rfl rfl ⟨_, rfl, (h.placed_of_route rfl).degraded none⟩
      · cases hstep
        refine ⟨?_, ?_, ?_, ?_, ?_⟩
        · have hwire := h.wire
          simp only [Forward.wire, Stage.asked, Option.map_none, Option.toList_none] at hwire
          simp [Forward.wire, Stage.asked, hwire]
        · rintro _ _ ⟨⟩
        · rintro _ _ ⟨⟩
          exact h.placed_of_route rfl
        · rintro _ _ _ _ ⟨⟩ ⟨⟩
        · rintro _ _ ⟨⟩
          exact trivial
    | _ => cases hstep
  | sending owner =>
    cases e with
    | reply reply =>
      cases hstep
      exact h.answered rfl rfl rfl
    | error error now =>
      obtain ⟨hs, hstage⟩ := Prod.mk.inj (Option.some.inj hstep)
      rw [← hs, ← hstage]
      exact h.answered (recordSendFailure_wire owner error now) rfl
        ⟨_, rfl, (h.asked r owner rfl).degraded (some owner)⟩
    | leave =>
      cases hstep
      refine ⟨?_, ?_, ?_, ?_, ?_⟩
      · rw [dropObservation_wire, h.wire]
        rfl
      · rintro _ _ ⟨⟩
      · rintro _ _ ⟨⟩
      · rintro _ _ _ _ ⟨⟩ ⟨⟩ ⟨⟩
      · rintro _ _ ⟨⟩
        exact ⟨[], [], rfl, .nil, fun _ => rfl⟩
    | _ => cases hstep
  | streaming fate response sent rest =>
    cases e with
    | poll =>
      cases rest with
      | nil =>
        cases hstep
        exact h.closed (fun _ => rfl) (dropObservation_wire ..)
      | cons chunk rest =>
        cases hstep
        refine ⟨h.wire, ?_, ?_, ?_, ?_⟩
        · rintro _ _ ⟨⟩
        · rintro _ _ ⟨⟩
        · rintro _ _ _ _ ⟨⟩ ⟨⟩ ⟨⟩
          exact h.answers r (.streaming fate response sent (chunk :: rest)) fate response rfl rfl
            rfl
        · rintro _ _ ⟨⟩
          obtain ⟨done, hbody, hsent⟩ :=
            h.delivered r (.streaming fate response sent (chunk :: rest)) rfl
          exact ⟨done ++ [chunk], by rw [hbody, List.append_assoc]; rfl, hsent.append chunk⟩
    | leave =>
      cases hstep
      exact h.closed (by rintro ⟨⟩) (dropObservation_wire ..)
    | _ => cases hstep
  | closed => cases e <;> cases hstep

theorem Told.step {t t' : Forward} (h : Told state display s i t)
    (hstep : Forward.step state display i e s t = some (s', t')) :
    Told state display s' i t' := by
  cases t with
  | idle =>
    have hwire := step_sends hstep
    cases e with
    | arrive r =>
      rw [Forward.step] at hstep
      split at hstep
      · cases hstep
      · obtain ⟨-, ht⟩ := Prod.mk.inj (Option.some.inj hstep)
        rw [← ht]
        rcases hwire with hwire | ⟨_, _, _, _, ⟨⟩, _⟩
        refine ⟨?_, ?_, ?_, ?_, ?_⟩
        · rw [hwire, h.wire]
          rfl
        · rintro _ _ ⟨⟩
        · rintro _ _ ⟨⟩
        · rintro _ _ _ _ ⟨⟩ ⟨⟩
        · rintro _ _ ⟨⟩
          exact trivial
    | _ => cases hstep
  | request r stage =>
    obtain ⟨⟨s'', stage'⟩, hforward, heq⟩ := Option.map_eq_some_iff.mp hstep
    cases heq
    exact h.forwardStep hforward

/-- What another request sends is not sent for this one. -/
theorem Told.other {t : Forward} (h : Told state display s i t)
    (hwire : s'.wire.filter (fun x => x.1 = i) = s.wire.filter (fun x => x.1 = i)) :
    Told state display s' i t :=
  ⟨hwire.trans h.wire, h.placed, h.asked, h.answers, h.delivered⟩

theorem told_of_reach {G : Sidecar ι → Action ι → Prop} {p : Sidecar ι}
    (h : (agent state display ι).Reach G p) (i : ι) : Told state display p.shared i (p.task i) := by
  have hall : ∀ i, Told state display p.shared i (p.task i) := by
    refine h.invariant (I := fun x => ∀ i, Told state display x.shared i (x.task i)) ?_
      fun x a y hx _ hstep => ?_
    · rintro _ rfl i
      refine ⟨rfl, ?_, ?_, ?_, ?_⟩
      · rintro _ _ ⟨⟩
      · rintro _ _ ⟨⟩
      · rintro _ _ _ _ ⟨⟩
      · rintro _ _ ⟨⟩
    · rcases fire_cases hstep with ⟨j, e, hfire, hown, -⟩ | ⟨htask, -, hwire, -⟩
      · refine Pool.fire_inv (J := Told state display) hx hfire
          ((hx j).step hown) fun k hk hother => hother.other ?_
        rcases step_sends hown with hsame | ⟨r, position, now, owner, -, -, hsent⟩
        · rw [hsame]
        · rw [hsent, List.filter_cons_of_neg (by simpa using Ne.symm hk)]
      · intro i
        rw [htask]
        exact (hx i).other (by rw [hwire])
  exact hall i

end Tell

/-! ## A read whose shard refuses the connection -/

section Sample

def sampleRead : Inbound where
  method := .get
  path := "/build-cache/http/k"
  query := none
  headers := [("x-flywheel-request-purpose", utf8 "prefetch"), ("te", utf8 "gzip")]
  body := []

/-- An agent that ejects a shard after one failure. -/
def sampleState : RingState := .new (fun _ => ⟨List.replicate 32 0, rfl⟩) 1 30

def sampleAddress (_ : SocketAddr) : String := "10.0.0.2:8080"

/-- Discovery has found one shard. -/
def sampleRing : RingInner := sampleState.after [.applySnapshot 1 [RingState.sampleMember]]

theorem sampleRead_placed : ∃ position,
    keyPosition sampleState.sha256 sampleRead.routed.kind sampleRead.routed.id = some position := by
  refine Option.ne_none_iff_exists'.mp fun hnone => ?_
  rw [keyPosition, Option.map_eq_none_iff, routingKey_eq_none] at hnone
  refine hnone ⟨?_, ?_⟩
  · show sampleRead.routed.kind.toUTF8.toList.length < 2 ^ 16
    decide +kernel
  · show sampleRead.routed.id.toUTF8.toList.length < 2 ^ 16
    decide +kernel

theorem sampleRing_owner (position : UInt64) :
    sampleRing.ring.owner position = some RingState.sampleMember := by
  have hring : sampleRing.ring = .new sampleState.sha256 [RingState.sampleMember] :=
    (RingState.after_ok sampleState [.applySnapshot 1 [RingState.sampleMember]]).ring_eq
  rw [hring]
  cases howner : (Ring.new sampleState.sha256 [RingState.sampleMember]).owner position with
  | none => cases Ring.owner_eq_none.mp howner
  | some owner =>
    obtain ⟨-, hfind⟩ := Ring.owner_isNext howner
    rw [List.mem_singleton.mp (mem_of_findKey hfind)]

/-- A step of the sample request continues a run. -/
theorem sample_run {p : Sidecar Unit} {e : Event} {s : AgentState Unit} {t : Forward}
    (h : (agent sampleState sampleAddress Unit).Reach (fun _ _ => True) p)
    (hstep : Forward.step sampleState sampleAddress () e p.shared (p.task ()) = some (s, t)) :
    ∃ q : Sidecar Unit, (agent sampleState sampleAddress Unit).Reach (fun _ _ => True) q ∧
      q.shared = s ∧ q.task () = t := by
  refine ⟨⟨s, Function.update p.task () t⟩, h.tail (a := .request () e) trivial ?_, rfl, ?_⟩
  · show (Forward.step sampleState sampleAddress () e p.shared (p.task ())).map _ = _
    rw [hstep]
    rfl
  · show Function.update p.task () t () = t
    rw [Function.update_self]

/-- The sample request has come this far, and the continuum is as it was found. -/
def Sampled (stage : Stage) : Prop :=
  ∃ p : Sidecar Unit, (agent sampleState sampleAddress Unit).Reach (fun _ _ => True) p ∧
    p.shared.ring = sampleRing ∧ p.task () = .request sampleRead stage

theorem sampled_step {stage stage' : Stage} (e : Event) {f : AgentState Unit → AgentState Unit}
    (hf : ∀ s, s.ring = sampleRing → (f s).ring = sampleRing)
    (hstep : ∀ s, s.ring = sampleRing →
      forwardStep sampleState sampleAddress () sampleRead stage e s = some (f s, stage')) :
    Sampled stage → Sampled stage' := by
  rintro ⟨p, hp, hring, htask⟩
  have hforward : Forward.step sampleState sampleAddress () e p.shared (p.task ()) =
      some (f p.shared, .request sampleRead stage') := by
    rw [htask, Forward.step, hstep p.shared hring]
    rfl
  obtain ⟨q, hq, hs, ht⟩ := sample_run hp hforward
  exact ⟨q, hq, by rw [hs, hf _ hring], ht⟩

theorem sampled_arrive : Sampled .classify := by
  have hstart : (agent sampleState sampleAddress Unit).Reach (fun _ _ => True)
      (Sidecar.new sampleState) := ⟨_, rfl, Relation.ReflTransGen.refl⟩
  have hsnapshot : (Sidecar.new sampleState).fire sampleState sampleAddress
      (.applySnapshot 1 [RingState.sampleMember]) =
        some (⟨⟨sampleRing, .new, []⟩, fun _ => .idle⟩ : Sidecar Unit) := rfl
  have hmember := hstart.tail trivial hsnapshot
  have hfirst : Forward.step sampleState sampleAddress () (.arrive sampleRead)
      ⟨sampleRing, .new, []⟩ .idle = some (_, .request sampleRead .classify) := rfl
  obtain ⟨q, hq, hs, ht⟩ := sample_run (e := .arrive sampleRead) hmember hfirst
  refine ⟨q, hq, ?_, ht⟩
  rw [hs]
  split
  · rfl
  · rfl

theorem sampled_asked : Sampled (.sending RingState.sampleMember) := by
  obtain ⟨position, hposition⟩ := sampleRead_placed
  have hplaced : Sampled (.route position) := by
    refine sampled_step .next (f := id) (fun _ => id) (fun s _ => ?_) sampled_arrive
    have hchannels : sampleRead.isChannels = false := by decide
    rw [forwardStep, hchannels, hposition]
    rfl
  refine sampled_step (.look 1) (f := fun s => ⟨sampleRing, s.metrics, ((), RingState.sampleMember,
    sampleRead.outbound "10.0.0.2:8080") :: s.wire⟩) (fun _ _ => rfl) (fun s hring => ?_) hplaced
  have hlook : sampleState.ring s.ring 1 = (sampleRing.ring, sampleRing) := by
    rw [hring]
    rfl
  simp only [forwardStep, hlook, sampleRing_owner]
  rfl

/-- The shard refuses the connection, and is ejected for it. -/
theorem refused_read : ∃ p : Sidecar Unit,
    (agent sampleState sampleAddress Unit).Reach (fun _ _ => True) p ∧
      p.task () = .request sampleRead
        (.streaming (.failed RingState.sampleMember ⟨true, false⟩ true) (bare 404) 0 []) := by
  obtain ⟨p, hp, hring, htask⟩ := sampled_asked
  have hejects : (recordSendFailure sampleState RingState.sampleMember ⟨true, false⟩ 1
      p.shared).1 = true := by
    show (sampleState.recordFailure p.shared.ring 1 "flywheel-1").1 = true
    rw [hring]
    exact RingState.sample_ejects _ _
  obtain ⟨s, hfail⟩ : ∃ s, Forward.step sampleState sampleAddress () (.error ⟨true, false⟩ 1)
      p.shared (p.task ()) = some (s, .request sampleRead (.answered
        (.failed RingState.sampleMember ⟨true, false⟩ (recordSendFailure sampleState
          RingState.sampleMember ⟨true, false⟩ 1 p.shared).1) (bare 404))) := by
    rw [htask]
    exact ⟨_, rfl⟩
  rw [hejects] at hfail
  obtain ⟨q, hq, -, ht⟩ := sample_run hp hfail
  exact ⟨q, hq, ht⟩

end Sample

/-! ## The agent -/

section Agent

variable {ι : Type} [DecidableEq ι] {state : RingState} {display : SocketAddr → String}
  {G : Sidecar ι → Action ι → Prop} {p : Sidecar ι}

/-- **A request is sent once at most, and is answered.** It goes to the shard that owns its key
on the continuum of the moment, as it came but for the hop-by-hop headers; the response is the
shard's own, or the one its route degrades to, and is delivered in order. A failed send is not
tried again, here or on another shard. -/
theorem fails_open (h : (agent state display ι).Reach G p) (i : ι) (r : Inbound) (stage : Stage)
    (htask : p.task i = .request r stage) :
    p.shared.wire.filter (fun x => x.1 = i) =
      (stage.asked.map fun owner => (i, owner, r.outbound (display owner.address))).toList ∧
    (∀ a p', p.fire state display a = some p' →
      p'.shared.wire.filter (fun x => x.1 = i) = p.shared.wire.filter (fun x => x.1 = i) ∨
      ∃ position now owner, stage = .route position ∧
        keyPosition state.sha256 r.routed.kind r.routed.id = some position ∧
        (state.ring p.shared.ring now).1.owner position = some owner ∧
        p'.shared.wire = (i, owner, r.outbound (display owner.address)) :: p.shared.wire) ∧
    (∀ fate response, stage.fate = some fate → stage.response = some response →
      fate.Answers state r response) ∧
    stage.Delivered := by
  have htold := told_of_reach h i
  refine ⟨?_, fun a p' hfire => ?_, fun fate response => htold.answers r stage fate response htask,
    htold.delivered r stage htask⟩
  · rw [htold.wire, htask]
    rfl
  · rcases fire_cases hfire with ⟨j, e, -, hown, -⟩ | ⟨-, -, hwire, -⟩
    · rcases step_sends hown with hsame | ⟨r', position, now, owner, hroute, howner, hsent⟩
      · exact .inl (by rw [hsame])
      · by_cases hj : j = i
        · subst hj
          cases htask.symm.trans hroute
          exact .inr ⟨position, now, owner, rfl, (htold.placed r position htask).2, howner, hsent⟩
        · exact .inl (by rw [hsent, List.filter_cons_of_neg (by simpa using hj)])
    · exact .inl (by rw [hwire])

/-- The client is answered as if the artifact were not there, and nothing else is sent. -/
theorem refused_read_missed : ∃ p : Sidecar Unit,
    (agent sampleState sampleAddress Unit).Reach (fun _ _ => True) p ∧
    p.shared.wire.filter (fun x => x.1 = ()) =
      [((), RingState.sampleMember, sampleRead.outbound "10.0.0.2:8080")] ∧
    (Fate.failed RingState.sampleMember ⟨true, false⟩ true).Answers sampleState sampleRead
      (bare 404) := by
  obtain ⟨p, hp, htask⟩ := refused_read
  obtain ⟨hwire, -, hanswers, -⟩ := fails_open hp () sampleRead _ htask
  exact ⟨p, hp, hwire, hanswers _ _ rfl rfl⟩

variable [Fintype ι]

/-- **The counters are the requests'.** In every state of every run each request that has come is
counted under what became of it, or is one of those still waiting, refused or given up. -/
theorem counters_account (h : (agent state display ι).Reach G p) :
    let count := p.shared.metrics.count
    (count .requests = count .forwarded + count .synthesizedMisses + count .synthesizedBypasses +
      count .unavailable + p.total (fun t => one t.isRefused) +
        p.total (fun t => one t.isAbandoned) + p.total (fun t => one t.isWaiting)) ∧
    (count .requests = count .forwardDuration + p.total (fun t => one t.isAbandoned) +
      p.total (fun t => one t.isWaiting)) ∧
    (count .prefetchRequests = count .prefetchHits + count .prefetchMisses +
      count .prefetchUnavailable + p.total (fun t => one (t.isPrefetch && t.isRefused)) +
        p.total (fun t => one (t.isPrefetch && t.isAbandoned)) +
          p.total (fun t => one (t.isPrefetch && t.isWaiting))) ∧
    (count .prefetchRequests : ℤ) = p.shared.metrics.prefetchInFlight +
      count .prefetchCompleted + count .prefetchCancelled ∧
    p.shared.metrics.prefetchInFlight = p.total Forward.observed ∧
    p.shared.metrics.prefetchResponseBytes = p.total Forward.streamed := by
  have hmetered := metered_of_reach h
  have hresponse : p.total (fun t => t.marks.count .requests) = _ :=
    Finset.sum_congr rfl fun i _ => (p.task i).counted.response
  have hduration : p.total (fun t => t.marks.count .requests) = _ :=
    Finset.sum_congr rfl fun i _ => (p.task i).counted.duration
  have houtcome : p.total (fun t => t.marks.count .prefetchRequests) = _ :=
    Finset.sum_congr rfl fun i _ => (p.task i).counted.outcome
  have hbody : p.total (fun t => t.marks.count .prefetchRequests) = _ :=
    Finset.sum_congr rfl fun i _ => (p.task i).counted.body
  simp only [Finset.sum_add_distrib] at hresponse hduration houtcome hbody
  refine ⟨?_, ?_, ?_, ?_, hmetered.inFlight, hmetered.bytes⟩
  · simp only [hmetered.count]
    exact hresponse
  · simp only [hmetered.count]
    exact hduration
  · simp only [hmetered.count]
    exact houtcome
  · rw [hmetered.inFlight]
    simp only [hmetered.count]
    exact_mod_cast hbody

/-- It is counted as a request, and as a prefetch that is still under way. -/
theorem refused_read_counted : ∃ p : Sidecar Unit,
    (agent sampleState sampleAddress Unit).Reach (fun _ _ => True) p ∧
    p.shared.metrics.prefetchInFlight = 1 ∧
    p.shared.metrics.count .requests = p.shared.metrics.count .forwardDuration := by
  obtain ⟨p, hp, htask⟩ := refused_read
  have htotal : ∀ g : Forward → Nat, p.total g = g (p.task ()) := fun g => by
    simp [Pool.total]
  obtain ⟨-, hduration, -, -, hflight, -⟩ := counters_account hp
  refine ⟨p, hp, ?_, ?_⟩
  · have hprefetch : sampleRead.isPrefetch = true := by decide +kernel
    rw [hflight, htotal, htask]
    show ((one sampleRead.isPrefetch : Nat) : Int) = 1
    rw [hprefetch]
    rfl
  · rw [hduration, htotal, htotal, htask]
    rfl

/-- **An ejection is paid for.** A shard is ejected at most once for every `failure_limit` failed
sends to it that it is to blame for, whatever discovery does meanwhile; and so the counters say. -/
theorem ejections_paid (h : (agent state display ι).Reach G p) :
    (∀ id, state.failureLimit.toNat * p.total (fun t => one (t.ejects id)) ≤
      p.total fun t => one (t.blames id)) ∧
    state.failureLimit.toNat * p.shared.metrics.count .ejections ≤
      p.shared.metrics.count .forwardFailures := by
  have hcharged := charged_of_reach h
  have hpaid : ∀ id, state.failureLimit.toNat * p.total (fun t => one (t.ejects id)) ≤
      p.total fun t => one (t.blames id) := fun id =>
    (Nat.le_add_right _ _).trans (hcharged.paid id)
  refine ⟨hpaid, ?_⟩
  have hmetered := metered_of_reach h
  have hids : ∀ i owner error ejected, (p.task i).fate = some (.failed owner error ejected) →
      owner.id ∈ Finset.univ.image fun i => (p.task i).failedAt := by
    intro i owner error ejected hfate
    refine Finset.mem_image.mpr ⟨i, Finset.mem_univ i, ?_⟩
    rw [Forward.failedAt, hfate]
  have hejections : p.total (fun t => t.marks.count .ejections) = _ :=
    Finset.sum_congr rfl fun i _ => ((p.task i).count_failures (hids i)).2
  have hfailures : p.total (fun t => t.marks.count .forwardFailures) = _ :=
    Finset.sum_congr rfl fun i _ => ((p.task i).count_failures (hids i)).1
  rw [hmetered.count, hmetered.count, hejections, hfailures, Finset.sum_comm,
    Finset.sum_comm (f := fun i id => one ((p.task i).blames id)), Finset.mul_sum]
  exact Finset.sum_le_sum fun id _ => hpaid id

/-- It takes one failure to eject the shard. -/
theorem refused_read_paid : ∃ p : Sidecar Unit,
    (agent sampleState sampleAddress Unit).Reach (fun _ _ => True) p ∧
    p.total (fun t => one (t.ejects "flywheel-1")) = 1 ∧
    1 ≤ p.total fun t => one (t.blames "flywheel-1") := by
  obtain ⟨p, hp, htask⟩ := refused_read
  have htotal : ∀ g : Forward → Nat, p.total g = g (p.task ()) := fun g => by
    simp [Pool.total]
  have hejects : p.total (fun t => one (t.ejects "flywheel-1")) = 1 := by
    rw [htotal, htask]
    rfl
  have hpaid := (ejections_paid hp).1 "flywheel-1"
  rw [hejects] at hpaid
  exact ⟨p, hp, hejects, hpaid⟩

end Agent

end Flywheel.Agent
