import Flywheel.Lib.Totals
import Flywheel.Transport.Http

/-!
# The foreground budget (`transport/http/mod.rs`)

A data route takes one slot of a budget that all requests share before it touches the cache,
and gives it back when the operation has its answer or, for a streamed body, when the body is
dropped. A request that finds no slot is answered 429 at once and does not wait. A read through
a reference takes a slot to resolve it, gives it back, and takes one again to serve the
artifact. The gauge is raised after a slot is taken and lowered before it is given back.

- `routeOf`: how the handlers of the data routes use the budget.
- `Handler.step`: one request among the others.
- `foreground_admission`: slots, gauge and rejections over every run.
- `foreground_sheds`: when a request is shed, and that none waits for another.
-/

set_option autoImplicit false

namespace Flywheel.Foreground

open Lib Http

/-! ## The routes -/

inductive Route where
  /-- One operation of the cache, and its answer. -/
  | operation
  /-- `serve_artifact`. -/
  | artifact
  /-- `serve_reference_artifact`. -/
  | reference
  /-- The proxy, which takes no slot, and perhaps `serve_artifact` for what it has fetched. -/
  | package
  deriving DecidableEq

/-- How the handler of a route and method uses the budget; the others take no slot. -/
def routeOf : DataRoute → Method → Option Route
  | .artifact, .get | .artifact, .head | .bazelCas, .get | .bazelCas, .head => some .artifact
  | .httpCache, .get | .httpCache, .head | .bazelAc, .get | .bazelAc, .head => some .reference
  | .reference, .get | .reference, .head | .reference, .put | .reference, .delete
  | .artifact, .put | .httpCache, .put | .bazelAc, .put | .bazelCas, .put => some .operation
  | .cargoConfig, _ => none
  | .go, .get | .go, .head | .pythonSimpleRoot, .get | .pythonSimpleRoot, .head
  | .pythonSimple, .get | .pythonSimple, .head | .pythonFile, .get | .pythonFile, .head
  | .npm, .get | .npm, .head | .cargoIndex, .get | .cargoIndex, .head
  | .cargoCrate, .get | .cargoCrate, .head => some .package
  | _, _ => none

/-- Every handler of the data routes uses the budget but the one that is answered from the
configuration. -/
theorem routeOf_isSome {ι : Type} (server : Http.Server ι) (route : DataRoute) (method : Method) :
    (routeOf route method).isSome =
      ((server.dataHandler route method).isSome && decide (route ≠ .cargoConfig)) := by
  cases route <;> cases method <;> rfl

/-! ## One request -/

/-- The semaphore and the metrics of it. -/
structure Budget where
  /-- `foreground.available_permits()`. -/
  available : Nat
  inFlight : Int
  rejections : Nat
  deriving DecidableEq

/-- What comes after a `ForegroundPermit` is dropped. -/
inductive After where
  | answered
  | serve
  | gone
  deriving DecidableEq

inductive Handler where
  | idle
  /-- The extractors and checks in front of the budget, or the proxy. -/
  | checking (route : Route)
  | acquiring (route : Route)
  /-- The slot is taken, the gauge not raised yet. -/
  | taken (route : Route)
  /-- No slot was left, and the rejection is not counted yet. -/
  | refused
  /-- The cache operation is awaited. -/
  | working (route : Route)
  /-- `body_with_permit`: the response is out, and its body has the slot. -/
  | streaming
  /-- The gauge is lowered, the slot not given back yet. -/
  | dropping (after : After)
  | answered
  /-- Answered with `busy_response`. -/
  | shed
  /-- The client has gone, and the handler was dropped. -/
  | gone
  deriving DecidableEq

inductive Event where
  | arrive (route : DataRoute) (method : Method)
  /-- The checks or the proxy answer, or there is something to serve. -/
  | checked (answered : Bool)
  | tryAcquire
  | count
  /-- The operation's answer is the response. -/
  | respond
  /-- The response has a body to stream. -/
  | stream
  /-- The reference resolves to an artifact. -/
  | resolved
  /-- The stream is over, or the body is dropped with its connection. -/
  | bodyDropped
  | release
  | cancelled
  deriving DecidableEq

/-- `Drop` of `ForegroundPermit`, before its fields are dropped. -/
def Budget.released (budget : Budget) : Budget := { budget with inFlight := budget.inFlight - 1 }

def After.handler : After → Handler
  | .answered => .answered
  | .serve => .acquiring .artifact
  | .gone => .gone

def Handler.step (event : Event) (budget : Budget) : Handler → Option (Budget × Handler)
  | .idle =>
    match event with
    | .arrive route method => (routeOf route method).map fun route => (budget, .checking route)
    | _ => none
  | .checking route =>
    match event with
    | .checked true => some (budget, .answered)
    -- behind the proxy there is an artifact to serve
    | .checked false => some (budget, .acquiring (if route = .package then .artifact else route))
    | .cancelled => some (budget, .gone)
    | _ => none
  | .acquiring route =>
    match event with
    | .tryAcquire =>
      if budget.available = 0 then some (budget, .refused)
      else some ({ budget with available := budget.available - 1 }, .taken route)
    | _ => none
  | .taken route =>
    match event with
    | .count => some ({ budget with inFlight := budget.inFlight + 1 }, .working route)
    | _ => none
  | .refused =>
    match event with
    | .count => some ({ budget with rejections := budget.rejections + 1 }, .shed)
    | _ => none
  | .working route =>
    match event with
    | .respond => some (budget.released, .dropping .answered)
    | .stream => if route = .artifact then some (budget, .streaming) else none
    | .resolved => if route = .reference then some (budget.released, .dropping .serve) else none
    | .cancelled => some (budget.released, .dropping .gone)
    | _ => none
  | .streaming =>
    match event with
    | .bodyDropped => some (budget.released, .dropping .answered)
    | _ => none
  | .dropping after =>
    match event with
    | .release => some ({ budget with available := budget.available + 1 }, after.handler)
    | _ => none
  | .answered | .shed | .gone => none

/-- The slots a request holds. -/
def Handler.held : Handler → Nat
  | .taken _ | .working _ | .streaming | .dropping _ => 1
  | _ => 0

/-- What the gauge shows of a request. -/
def Handler.shown : Handler → Nat
  | .working _ | .streaming => 1
  | _ => 0

def Handler.rejected : Handler → Nat
  | .shed => 1
  | _ => 0

/-- Over, or not begun. -/
def Handler.quiet : Handler → Bool
  | .idle | .answered | .shed | .gone => true
  | _ => false

theorem Handler.shown_le_held (handler : Handler) : handler.shown ≤ handler.held := by
  cases handler <;> simp [Handler.shown, Handler.held]

theorem Handler.held_le_one (handler : Handler) : handler.held ≤ 1 := by
  cases handler <;> simp [Handler.held]

theorem Handler.held_quiet {handler : Handler} (h : handler.quiet = true) :
    handler.held = 0 ∧ handler.shown = 0 := by
  cases handler <;> first | exact ⟨rfl, rfl⟩ | cases h

/-! ## All requests -/

/-- Each thread is one request. -/
abbrev Requests (ι : Type) : Type := Pool ι Budget Handler

section

variable {ι : Type} [Fintype ι] {p : Requests ι} {i : ι}

/-- The requests that hold a slot. -/
def holders (p : Requests ι) : Finset ι := Finset.univ.filter fun i => (p.task i).held = 1

theorem card_holders : (holders p).card = p.total Handler.held := by
  rw [holders, Finset.card_filter]
  refine Finset.sum_congr rfl fun i _ => ?_
  have hle := (p.task i).held_le_one
  split <;> omega

theorem not_mem_holders (h : (p.task i).held = 0) : i ∉ holders p := by
  rw [holders, Finset.mem_filter]
  rintro ⟨-, hone⟩
  omega

end

variable {ι : Type} [DecidableEq ι]

def Requests.fire (p : Requests ι) (i : ι) (event : Event) : Option (Requests ι) :=
  Pool.fire (fun _ event budget handler => handler.step event budget) p i event

/-- The server with `foreground_concurrency` slots. -/
def server (ι : Type) [DecidableEq ι] (limit : Nat) : System (Requests ι) (ι × Event) where
  init p := p = ⟨⟨limit, 0, 0⟩, fun _ => .idle⟩
  step p a p' := p.fire a.1 a.2 = some p'

/-- What a step moves is what it moves of the request's own. -/
structure Moved (budget budget' : Budget) (handler handler' : Handler) : Prop where
  slots : budget'.available + handler'.held = budget.available + handler.held
  gauge : budget'.inFlight + handler.shown = budget.inFlight + handler'.shown
  rejections : budget'.rejections + handler.rejected = budget.rejections + handler'.rejected

variable {event : Event} {budget budget' : Budget} {handler handler' : Handler} {limit : Nat}

/-- What a step can be. -/
inductive Fired (budget : Budget) : Handler → Event → Budget → Handler → Prop where
  | arrive (path : DataRoute) (method : Method) (route : Route) :
      Fired budget .idle (.arrive path method) budget (.checking route)
  | answered (route : Route) : Fired budget (.checking route) (.checked true) budget .answered
  | passed (route : Route) : Fired budget (.checking route) (.checked false) budget
      (.acquiring (if route = .package then .artifact else route))
  | left (route : Route) : Fired budget (.checking route) .cancelled budget .gone
  | refused (route : Route) (h : budget.available = 0) :
      Fired budget (.acquiring route) .tryAcquire budget .refused
  | taken (route : Route) (h : budget.available ≠ 0) :
      Fired budget (.acquiring route) .tryAcquire
        { budget with available := budget.available - 1 } (.taken route)
  | counted (route : Route) :
      Fired budget (.taken route) .count
        { budget with inFlight := budget.inFlight + 1 } (.working route)
  | rejected :
      Fired budget .refused .count { budget with rejections := budget.rejections + 1 } .shed
  | lowered {event : Event} (route : Route) (after : After)
      (h : event = .respond ∨ event = .resolved ∨ event = .cancelled) :
      Fired budget (.working route) event budget.released (.dropping after)
  | streams : Fired budget (.working .artifact) .stream budget .streaming
  | bodyDropped : Fired budget .streaming .bodyDropped budget.released (.dropping .answered)
  | released (after : After) :
      Fired budget (.dropping after) .release
        { budget with available := budget.available + 1 } after.handler

theorem fired (h : handler.step event budget = some (budget', handler')) :
    Fired budget handler event budget' handler' := by
  cases handler with
  | idle =>
    cases event with
    | arrive path method =>
      obtain ⟨route, -, heq⟩ := Option.map_eq_some_iff.mp h
      cases heq
      exact .arrive path method route
    | _ => cases h
  | checking route =>
    cases event with
    | checked answered =>
      cases answered with
      | true =>
        cases h
        exact .answered route
      | false =>
        cases h
        exact .passed route
    | cancelled =>
      cases h
      exact .left route
    | _ => cases h
  | acquiring route =>
    cases event with
    | tryAcquire =>
      by_cases hnone : budget.available = 0
      · rw [Handler.step, if_pos hnone] at h
        cases h
        exact .refused route hnone
      · rw [Handler.step, if_neg hnone] at h
        cases h
        exact .taken route hnone
    | _ => cases h
  | taken route =>
    cases event with
    | count =>
      cases h
      exact .counted route
    | _ => cases h
  | refused =>
    cases event with
    | count =>
      cases h
      exact .rejected
    | _ => cases h
  | working route =>
    cases event with
    | respond =>
      cases h
      exact .lowered route _ (.inl rfl)
    | cancelled =>
      cases h
      exact .lowered route _ (.inr (.inr rfl))
    | stream =>
      rw [Handler.step] at h
      split at h
      · rename_i hroute
        cases h
        rw [hroute]
        exact .streams
      · cases h
    | resolved =>
      rw [Handler.step] at h
      split at h
      · cases h
        exact .lowered route _ (.inr (.inl rfl))
      · cases h
    | _ => cases h
  | streaming =>
    cases event with
    | bodyDropped =>
      cases h
      exact .bodyDropped
    | _ => cases h
  | dropping after =>
    cases event with
    | release =>
      cases h
      exact .released after
    | _ => cases h
  | answered => cases h
  | shed => cases h
  | gone => cases h

/-- A step moves the budget by what it moves the request's part of it. -/
theorem step_moved (h : handler.step event budget = some (budget', handler')) :
    Moved budget budget' handler handler' := by
  cases fired h with
  | arrive | answered | passed | left | refused | streams => exact ⟨rfl, rfl, rfl⟩
  | taken route hsome =>
    refine ⟨?_, rfl, rfl⟩
    show budget.available - 1 + 1 = budget.available + 0
    omega
  | counted route =>
    refine ⟨rfl, ?_, rfl⟩
    show budget.inFlight + 1 + 0 = budget.inFlight + 1
    omega
  | rejected => exact ⟨rfl, rfl, rfl⟩
  | lowered route after _ =>
    refine ⟨rfl, ?_, rfl⟩
    show budget.inFlight - 1 + 1 = budget.inFlight + 0
    omega
  | bodyDropped =>
    refine ⟨rfl, ?_, rfl⟩
    show budget.inFlight - 1 + 1 = budget.inFlight + 0
    omega
  | released after => cases after <;> exact ⟨rfl, rfl, rfl⟩

variable [Fintype ι] {p p' : Requests ι}

/-- Slots, gauge and counter are what the requests have of them. -/
structure Accounted (limit : Nat) (p : Requests ι) : Prop where
  slots : p.shared.available + p.total Handler.held = limit
  gauge : p.shared.inFlight = p.total Handler.shown
  rejections : p.shared.rejections = p.total Handler.rejected

theorem Accounted.step (h : Accounted limit p) {i : ι} (hfire : p.fire i event = some p') :
    Accounted limit p' := by
  have hmoved := step_moved (Pool.fire_eq_some hfire).1
  have htotal := Pool.total_fire hfire
  constructor
  · have hslots := hmoved.slots
    have hheld := htotal Handler.held
    have hbefore := h.slots
    omega
  · have hgauge := hmoved.gauge
    have hshown := htotal Handler.shown
    have hbefore := h.gauge
    omega
  · have hrejections := hmoved.rejections
    have hrejected := htotal Handler.rejected
    have hbefore := h.rejections
    omega

theorem accounted {G : Requests ι → ι × Event → Prop} (h : (server ι limit).Reach G p) :
    Accounted limit p := by
  refine h.invariant ?_ fun x a y hx _ hstep => hx.step hstep
  rintro _ rfl
  constructor
  · show limit + ∑ _, 0 = limit
    rw [Finset.sum_const_zero]
    rfl
  · show (0 : Int) = ((∑ _, 0 : Nat) : Int)
    rw [Finset.sum_const_zero]
    rfl
  · show 0 = ∑ _, 0
    rw [Finset.sum_const_zero]

/-- Whatever the requests and whenever their clients leave, the slots are those given and those
held, the gauge shows no more than the limit and never less than nothing, and each 429 of the
budget is counted once. When no request is under way, every slot is back. -/
theorem foreground_admission (limit : Nat) (p : Requests ι)
    (h : (server ι limit).Reach (fun _ _ => True) p) :
    p.shared.available + p.total Handler.held = limit ∧
      p.shared.inFlight = p.total Handler.shown ∧
      0 ≤ p.shared.inFlight ∧ p.shared.inFlight ≤ limit ∧
      p.shared.rejections = p.total Handler.rejected ∧
      ((∀ i, (p.task i).quiet = true) →
        p.shared.available = limit ∧ p.shared.inFlight = 0) := by
  have haccounted := accounted h
  have hle : p.total Handler.shown ≤ p.total Handler.held :=
    Finset.sum_le_sum fun i _ => (p.task i).shown_le_held
  have hslots := haccounted.slots
  have hgauge := haccounted.gauge
  refine ⟨hslots, hgauge, by omega, by omega, haccounted.rejections, fun hquiet => ?_⟩
  have hheld : p.total Handler.held = 0 :=
    Finset.sum_eq_zero fun i _ => (Handler.held_quiet (hquiet i)).1
  constructor <;> omega

/-! ### Two reads through references and one slot -/

/-- The first has resolved its reference when the second asks. -/
def sampleSchedule : List (Bool × Event) :=
  [(false, .arrive .httpCache .get), (true, .arrive .bazelAc .head), (false, .checked false),
    (true, .checked false), (false, .tryAcquire), (false, .count), (true, .tryAcquire),
    (true, .count)]

theorem sampleSchedule_reaches : ∃ p : Requests Bool,
    (server Bool 1).Reach (fun _ _ => True) p ∧
      (p.task false = .working .reference ∧ p.task true = .shed) := by
  have hrun : (System.exec (fun p a => Requests.fire p a.1 a.2) (fun _ _ => true)
      ⟨⟨1, 0, 0⟩, fun _ => .idle⟩ sampleSchedule).any (fun p =>
        decide (p.task false = .working .reference ∧ p.task true = .shed)) = true := by
    decide
  obtain ⟨p, hreach, hcheck⟩ := System.reach_of_exec (S := server Bool 1)
    (G := fun _ _ => True) (fun _ _ _ hfire => hfire) (fun _ _ _ => trivial) rfl hrun
  exact ⟨p, hreach, of_decide_eq_true hcheck⟩

theorem sample_admission : ∃ p : Requests Bool, p.task true = .shed ∧
    p.shared.available = 0 ∧ p.shared.inFlight = 1 ∧ p.shared.rejections = 1 := by
  obtain ⟨p, hreach, hfirst, hsecond⟩ := sampleSchedule_reaches
  obtain ⟨hslots, hgauge, -, -, hrejections, -⟩ := foreground_admission 1 p hreach
  have hheld : p.total Handler.held = 1 := by
    rw [Pool.total, Fintype.sum_bool, hfirst, hsecond]
    rfl
  have hshown : p.total Handler.shown = 1 := by
    rw [Pool.total, Fintype.sum_bool, hfirst, hsecond]
    rfl
  have hrejected : p.total Handler.rejected = 1 := by
    rw [Pool.total, Fintype.sum_bool, hfirst, hsecond]
    rfl
  exact ⟨p, hsecond, by omega, by omega, by omega⟩

/-! ## Who is shed -/

/-- A request that asks has no slot, and is refused if there is none left. -/
theorem step_tryAcquire (h : handler.step .tryAcquire budget = some (budget', handler')) :
    handler.held = 0 ∧ (handler' = .refused ↔ budget.available = 0) := by
  cases fired h with
  | refused route hnone => exact ⟨rfl, fun _ => hnone, fun _ => rfl⟩
  | taken route hsome =>
    refine ⟨rfl, ?_, fun hnone => absurd hnone hsome⟩
    rintro ⟨⟩
  | lowered route after h => rcases h with ⟨⟨⟩⟩ | ⟨⟨⟩⟩ | ⟨⟨⟩⟩

/-- Refused, or answered so. -/
def Handler.turnedAway : Handler → Bool
  | .refused | .shed => true
  | _ => false

theorem step_turnedAway (h : handler.step event budget = some (budget', handler'))
    (haway : handler'.turnedAway = true) :
    handler.turnedAway = true ∨ event = .tryAcquire ∧ handler' = .refused := by
  cases fired h with
  | refused route hnone => exact .inr ⟨rfl, rfl⟩
  | rejected => exact .inl rfl
  | released after => cases after <;> cases haway
  | _ => cases haway

/-- A request is refused exactly when the whole budget is with others. -/
theorem refused_iff {G : Requests ι → ι × Event → Prop} (h : (server ι limit).Reach G p) {i : ι}
    (hfire : p.fire i .tryAcquire = some p') :
    p'.task i = .refused ↔ i ∉ holders p ∧ (holders p).card = limit := by
  obtain ⟨hheld, hrefused⟩ := step_tryAcquire (Pool.fire_eq_some hfire).1
  have hslots := (accounted h).slots
  rw [hrefused, card_holders]
  refine ⟨fun hnone => ⟨not_mem_holders hheld, by omega⟩, ?_⟩
  rintro ⟨-, hfull⟩
  omega

/-- With no more requests than slots, none is turned away. -/
theorem none_turnedAway {G : Requests ι → ι × Event → Prop} (hfew : Fintype.card ι ≤ limit)
    (h : (server ι limit).Reach G p) (i : ι) : (p.task i).turnedAway = false := by
  revert i
  refine h.invariant_of_reach (I := fun x => ∀ i, (x.task i).turnedAway = false) ?_ ?_
  · rintro _ rfl i
    rfl
  · intro x a y hx hI _ hstep j
    obtain ⟨hfire, hothers⟩ := Pool.fire_eq_some hstep
    by_cases hj : j = a.1
    · subst hj
      rw [← Bool.not_eq_true]
      intro haway
      rcases step_turnedAway hfire haway with hbefore | ⟨hevent, hrefused⟩
      · rw [hI] at hbefore
        cases hbefore
      · -- every slot with another request would make one request too many
        obtain ⟨i, event⟩ := a
        subst hevent
        obtain ⟨hnot, hfull⟩ := (refused_iff hx hstep).mp hrefused
        have hlt : (holders x).card < Fintype.card ι := by
          refine Finset.card_lt_univ_of_notMem hnot
        omega
    · rw [hothers j hj]
      exact hI j

/-- A request can always take a step of its own. -/
theorem step_isSome (budget : Budget) (h : handler.quiet = false) :
    ∃ event, (handler.step event budget).isSome := by
  cases handler with
  | checking route => exact ⟨.checked true, rfl⟩
  | acquiring route =>
    refine ⟨.tryAcquire, ?_⟩
    rw [Handler.step]
    split <;> rfl
  | taken route => exact ⟨.count, rfl⟩
  | refused => exact ⟨.count, rfl⟩
  | working route => exact ⟨.respond, rfl⟩
  | streaming => exact ⟨.bodyDropped, rfl⟩
  | dropping after => exact ⟨.release, rfl⟩
  | idle => cases h
  | answered => cases h
  | shed => cases h
  | gone => cases h

/-- The budget turns a request away exactly when all of it is with other requests: with no more
requests than slots none is ever turned away, not even one that reads through a reference and
asks twice. And none waits for a slot. -/
theorem foreground_sheds (limit : Nat) (p : Requests ι)
    (h : (server ι limit).Reach (fun _ _ => True) p) :
    (∀ i p', p.fire i .tryAcquire = some p' →
      (p'.task i = .refused ↔ i ∉ holders p ∧ (holders p).card = limit)) ∧
      (Fintype.card ι ≤ limit → ∀ i, p.task i ≠ .refused ∧ p.task i ≠ .shed) ∧
      ∀ i, (p.task i).quiet = false → ∃ event, (p.fire i event).isSome := by
  refine ⟨fun i p' => refused_iff h, fun hfew i => ?_, fun i hbusy => ?_⟩
  · have hkept := none_turnedAway hfew h i
    constructor
    · intro hrefused
      rw [hrefused] at hkept
      cases hkept
    · intro hshed
      rw [hshed] at hkept
      cases hkept
  · obtain ⟨event, hstep⟩ := step_isSome p.shared hbusy
    refine ⟨event, ?_⟩
    show (Option.map _ _).isSome = true
    rw [Option.isSome_map]
    exact hstep

/-- With two slots for two requests, nothing turns either away. -/
theorem sample_sheds_none : ∃ p : Requests Bool,
    (p.task false = .working .reference ∧ p.task true = .working .reference) ∧
      ∀ i, p.task i ≠ .refused ∧ p.task i ≠ .shed := by
  have hrun : (System.exec (fun p a => Requests.fire p a.1 a.2) (fun _ _ => true)
      ⟨⟨2, 0, 0⟩, fun _ => .idle⟩ sampleSchedule).any (fun p =>
        decide (p.task false = .working .reference ∧ p.task true = .working .reference)) = true := by
    decide
  obtain ⟨p, hreach, hcheck⟩ := System.reach_of_exec (S := server Bool 2)
    (G := fun _ _ => True) (fun _ _ _ hfire => hfire) (fun _ _ _ => trivial) rfl hrun
  obtain ⟨-, hnone, -⟩ := foreground_sheds 2 p hreach
  exact ⟨p, of_decide_eq_true hcheck, hnone (by decide)⟩

end Flywheel.Foreground
