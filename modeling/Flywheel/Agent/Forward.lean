import Flywheel.Agent.Ejection
import Flywheel.Agent.Placement
import Flywheel.Lib.Transition

/-!
# Forwarding (`agent/mod.rs`)

A request to the agent is counted, classified and placed on the continuum, sent to its owner,
and answered with what the owner answers or, where there is no owner or the send fails, with
the degraded response of its route. Meanwhile other requests are under way, discovery replaces
the membership, and clients go away. A request that asks to be counted as a prefetch carries an
observation from its arrival until its response body is dropped.

Each action of a request takes the counters of `AgentMetrics` along that it increments right
after; what a scrape between two increments of one action sees is left out, and so are the
durations.

The handlers of a request are `forwardStep`, one step for each stretch between two awaits; the
agent with all its requests and discovery is `agent`.
-/

set_option autoImplicit false

namespace Flywheel.Agent

open Lib Http

/-! ## Messages -/

/-- A request as the agent receives it, or as it hands it to the HTTP client. -/
structure Inbound where
  method : Method
  path : String
  query : Option String
  headers : Headers
  /-- The chunks of the body. -/
  body : List Bytes

structure Outbound where
  method : Method
  url : String
  headers : Headers
  body : Option (List Bytes)

structure Answer where
  status : Nat
  headers : Headers
  /-- The chunks that the body will deliver. -/
  body : List Bytes

/-- `StatusCode::into_response`. -/
def bare (status : Nat) : Answer := ⟨status, [], []⟩

/-- Why a send fails. -/
structure SendError where
  isConnect : Bool
  isTimeout : Bool

/-- The backend is to blame. A client that aborts its own upload also fails the send. -/
def SendError.blames (error : SendError) : Bool := error.isConnect || error.isTimeout

/-- Hop-by-hop request headers. -/
def skipRequestHeader (name : String) : Bool :=
  ["connection", "keep-alive", "proxy-authenticate", "proxy-authorization", "te", "trailer",
    "transfer-encoding", "upgrade", "host", "expect"].contains name

def skipResponseHeader (name : String) : Bool :=
  ["connection", "keep-alive", "te", "trailer", "transfer-encoding", "upgrade"].contains name

namespace Inbound

def pathAndQuery (r : Inbound) : String :=
  r.path ++ r.query.elim "" fun query => "?" ++ query

/-- `REQUEST_PURPOSE_HEADER` says `REQUEST_PURPOSE_PREFETCH`. -/
def isPrefetch (r : Inbound) : Bool :=
  r.headers.lookup "x-flywheel-request-purpose" == some (utf8 "prefetch")

/-- The management routes have no owner. -/
def isChannels (r : Inbound) : Bool :=
  r.path == "/channels" || (stripPrefix "/channels/" r.path).isSome

def routed (r : Inbound) : RoutedKey := classify r.method r.path

/-- What `forward_request` sends to the owner. -/
def outbound (r : Inbound) (address : String) : Outbound where
  method := r.method
  url := "http://" ++ address ++ r.pathAndQuery
  headers := r.headers.filter fun header => !skipRequestHeader header.1
  body :=
    match r.method with
    | .get | .head => none
    | _ => some r.body

end Inbound

def proxiedResponse (upstream : Answer) : Answer :=
  { upstream with headers := upstream.headers.filter fun header => !skipResponseHeader header.1 }

/-! ## Counters -/

inductive Counter where
  | requests
  | forwarded
  /-- The observations of `forward_duration`. -/
  | forwardDuration
  | forwardFailures
  | synthesizedMisses
  | synthesizedBypasses
  | unavailable
  | ejections
  | prefetchRequests
  | prefetchHits
  | prefetchMisses
  | prefetchUnavailable
  | prefetchCompleted
  | prefetchCancelled
  deriving DecidableEq

structure AgentMetrics where
  count : Counter → Nat
  prefetchResponseBytes : Nat
  /-- A gauge. -/
  prefetchInFlight : Int

namespace AgentMetrics

def new : AgentMetrics := ⟨fun _ => 0, 0, 0⟩

/-- `inc` of each. -/
def record (metrics : AgentMetrics) (cs : List Counter) : AgentMetrics :=
  { metrics with count := fun c => metrics.count c + cs.count c }

/-- `prefetch_started`. -/
def prefetchStarted (metrics : AgentMetrics) : AgentMetrics :=
  { metrics.record [.prefetchRequests] with
    prefetchInFlight := metrics.prefetchInFlight + 1 }

/-- `prefetch_finished`. -/
def prefetchFinished (metrics : AgentMetrics) (bytes : UInt64) (completed : Bool) :
    AgentMetrics :=
  { metrics.record [if completed then .prefetchCompleted else .prefetchCancelled] with
    prefetchInFlight := metrics.prefetchInFlight - 1
    prefetchResponseBytes := metrics.prefetchResponseBytes + bytes.toNat }

end AgentMetrics

/-- `degrade`: the counter and the status. -/
def degrade (routeClass : RouteClass) (emptyRing : Bool) : Counter × Nat :=
  match routeClass with
  | .buildCacheRead => (.synthesizedMisses, 404)
  | .buildCacheWrite => (.synthesizedBypasses, 200)
  | .passthrough => (.unavailable, if emptyRing then 503 else 502)

/-- How a forwarded prefetch is counted. -/
def prefetchOutcome (status : Nat) : Counter :=
  if 200 ≤ status ∧ status < 300 then .prefetchHits
  else if status = 404 then .prefetchMisses
  else .prefetchUnavailable

/-! ## Requests under way -/

/-- What became of a request. -/
inductive Fate where
  /-- A management route, or a key that is too long. -/
  | refused (status : Nat)
  | noOwner
  | forwarded (owner : RingMember) (reply : Answer)
  | failed (owner : RingMember) (error : SendError) (ejected : Bool)
  /-- The client went away while the owner was being asked. -/
  | abandoned (owner : RingMember)

inductive Stage where
  | classify
  | route (position : UInt64)
  | sending (owner : RingMember)
  /-- The body of the response has delivered `sent` bytes, and `rest` is left. -/
  | streaming (fate : Fate) (response : Answer) (sent : UInt64) (rest : List Bytes)
  | closed (fate : Fate) (response : Option Answer) (sent : UInt64) (completed : Bool)

inductive Forward where
  | idle
  | request (r : Inbound) (stage : Stage)

inductive Event where
  | arrive (r : Inbound)
  | next
  /-- `RingState::ring` reads the clock. -/
  | look (now : UInt64)
  | reply (reply : Answer)
  | error (error : SendError) (now : UInt64)
  | poll
  /-- The client goes away, or the body fails. -/
  | leave

/-- What the requests share; `wire` is what has been sent, by whom and to whom. -/
structure AgentState (ι : Type) where
  ring : RingInner
  metrics : AgentMetrics
  wire : List (ι × RingMember × Outbound)

namespace AgentState

variable {ι : Type} (s : AgentState ι)

def record (cs : List Counter) : AgentState ι := { s with metrics := s.metrics.record cs }

/-- `PrefetchObservation::drop`, if there is an observation. -/
def dropObservation (r : Inbound) (bytes : UInt64) (completed : Bool) : AgentState ι :=
  if r.isPrefetch then { s with metrics := s.metrics.prefetchFinished bytes completed } else s

end AgentState

/-- What only a prefetch counts. -/
def Inbound.asPrefetch (r : Inbound) (c : Counter) : List Counter :=
  if r.isPrefetch then [c] else []

section Step

variable {ι : Type} (state : RingState) (display : SocketAddr → String) (i : ι)

/-- `record_send_failure`. -/
def recordSendFailure (owner : RingMember) (error : SendError) (now : UInt64)
    (s : AgentState ι) : Bool × AgentState ι :=
  if error.blames then
    let r := state.recordFailure s.ring now owner.id
    (r.1, { s with ring := r.2 }.record
      (Counter.forwardFailures :: if r.1 then [.ejections] else []))
  else (false, s)

/-- The response is made. -/
def Stage.answered (fate : Fate) (response : Answer) : Stage :=
  .streaming fate response 0 response.body

/-- `forward` and `forward_request`. -/
def forwardStep (r : Inbound) : Stage → Event → AgentState ι → Option (AgentState ι × Stage)
  | .classify, .next, s =>
    if r.isChannels then
      some (s.record [.forwardDuration], .answered (.refused 501) (bare 501))
    else
      match keyPosition state.sha256 r.routed.kind r.routed.id with
      | none => some (s.record [.forwardDuration], .answered (.refused 414) (bare 414))
      | some position => some (s, .route position)
  | .route position, .look now, s =>
    let (ring, inner) := state.ring s.ring now
    match ring.owner position with
    | none =>
      let (counter, status) := degrade r.routed.routeClass true
      some ({ s with ring := inner }.record
          (r.asPrefetch .prefetchUnavailable ++ [counter, .forwardDuration]),
        .answered .noOwner (bare status))
    | some owner =>
      some ({ s with ring := inner, wire := (i, owner, r.outbound (display owner.address)) :: s.wire },
        .sending owner)
  | .sending owner, .reply reply, s =>
    some ({ s with ring := RingState.recordSuccess s.ring owner.id }.record
        (Counter.forwarded ::
          (r.asPrefetch (prefetchOutcome reply.status) ++ [Counter.forwardDuration])),
      .answered (.forwarded owner reply) (proxiedResponse reply))
  | .sending owner, .error error now, s =>
    let x := recordSendFailure state owner error now s
    let (counter, status) := degrade r.routed.routeClass false
    some (x.2.record (r.asPrefetch .prefetchUnavailable ++ [counter, .forwardDuration]),
      .answered (.failed owner error x.1) (bare status))
  | .sending owner, .leave, s =>
    some (s.dropObservation r 0 false, .closed (.abandoned owner) none 0 false)
  | .streaming fate response sent rest, .poll, s =>
    match rest with
    | chunk :: rest =>
      some (s, .streaming fate response (saturatingAdd sent (UInt64.ofNat chunk.length)) rest)
    | [] => some (s.dropObservation r sent true, .closed fate (some response) sent true)
  | .streaming fate response sent _, .leave, s =>
    some (s.dropObservation r sent false, .closed fate (some response) sent false)
  | _, _, _ => none

/-- The routes of the router that are not forwarded. -/
def controlRoutes : List String := ["/health/live", "/health/ready", "/metrics", "/status"]

def Forward.step (e : Event) (s : AgentState ι) : Forward → Option (AgentState ι × Forward)
  | .idle =>
    match e with
    | .arrive r =>
      if controlRoutes.contains r.path then none
      else
        let s := s.record [.requests]
        let s := if r.isPrefetch then { s with metrics := s.metrics.prefetchStarted } else s
        some (s, .request r .classify)
    | _ => none
  | .request r stage =>
    (forwardStep state display i r stage e s).map fun x => (x.1, .request r x.2)

end Step

abbrev Sidecar (ι : Type) : Type := Pool ι (AgentState ι) Forward

inductive Action (ι : Type) where
  | request (i : ι) (e : Event)
  /-- Discovery applies a snapshot, or notes that it has none. -/
  | applySnapshot (now : UInt64) (discovered : List RingMember)
  | recordRefreshError (error : String)

section Run

variable {ι : Type} [DecidableEq ι] (state : RingState) (display : SocketAddr → String)

def Sidecar.fire (p : Sidecar ι) : Action ι → Option (Sidecar ι)
  | .request i e => Pool.fire (fun i e s t => Forward.step state display i e s t) p i e
  | .applySnapshot now discovered =>
    some { p with shared :=
      { p.shared with ring := state.applySnapshot p.shared.ring now discovered } }
  | .recordRefreshError error =>
    some { p with shared :=
      { p.shared with ring := RingState.recordRefreshError p.shared.ring error } }

def Sidecar.new : Sidecar ι := ⟨⟨state.initial, .new, []⟩, fun _ => .idle⟩

/-- The agent from its start, with any number of requests. -/
def agent (ι : Type) [DecidableEq ι] : System (Sidecar ι) (Action ι) where
  init p := p = Sidecar.new state
  step p a p' := p.fire state display a = some p'

end Run

end Flywheel.Agent
