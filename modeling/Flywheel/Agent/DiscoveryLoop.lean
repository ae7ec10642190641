import Flywheel.Agent.Refresh
import Flywheel.Agent.Ejection

/-!
# The discovery loop among the requests (`agent/discovery.rs`, `run` and `refresh_once`)

A pass of the loop is not one step. It waits for the SRV answer, reads the addresses known so
far, waits for the addresses of each target in turn, and then replaces the membership; all the
while requests go through the ring and record what became of their sends. Between passes the
loop sleeps for a random part of the answer's TTL, or of the backoff if there was no answer.

- `Loop.fire`: one step of the loop, or one call of a request.
- `discovery_atomic`: however the requests fall between the steps, the state is the one that
  whole passes leave, each made at the moment of its replacement.
- `discovery_backs_off`: what the loop sleeps for, and what `/status` says of the last pass.
- `listed_member_stays`: a member the SRV answers go on listing is not dropped, whatever
  becomes of its address lookups.
-/

set_option autoImplicit false

namespace Flywheel.Agent.RingState

open Lib

/-! ## Steps of a pass -/

/-- What requests call. -/
inductive RouteCall where
  | ring (now : UInt64)
  | recordSuccess (id : String)
  | recordFailure (now : UInt64) (id : String)
  deriving DecidableEq

def RouteCall.call : RouteCall → Call
  | .ring now => .ring now
  | .recordSuccess id => .recordSuccess id
  | .recordFailure now id => .recordFailure now id

/-- A random duration between so many tenths of a duration and so many. -/
structure Jitter where
  duration : Nat
  low : Nat
  high : Nat
  deriving DecidableEq

inductive LoopPhase where
  /-- `resolver.srv` is awaited. -/
  | srv
  /-- `resolver.ips` is awaited for the first record left, or none is left. -/
  | ips (known : List (String × SocketAddr)) (left : List SrvRecord) (members : List RingMember)
      (ttl : Nat)
  | sleeping (delay : Jitter)
  | returned
  /-- The doubled backoff is no `Duration`. -/
  | panicked
  deriving DecidableEq

/-- The shared state and the locals of `run`; durations are in nanoseconds. -/
structure Loop where
  inner : RingInner
  phase : LoopPhase
  backoff : Nat
  deriving DecidableEq

inductive LoopEvent where
  | request (request : RouteCall)
  | srv (answer : Except String SrvSnapshot)
  | ips (answer : Except String (List IpAddr))
  | apply (now : UInt64)
  | awake
  | cancelled

/-- `minimum` in `run`. -/
def minimum : Nat := 1000000000

/-- `Duration::MAX`. -/
def durationMax : Nat := 2 ^ 64 * 1000000000 - 1

/-- `refresh_max` as the subcommand makes it of the argument in seconds. -/
def refreshMaxOf (argument : UInt64) : Nat := max argument.toNat 1 * 1000000000

theorem minimum_le (argument : UInt64) : minimum ≤ refreshMaxOf argument := by
  have hone : 1 ≤ max argument.toNat 1 := le_max_right _ _
  unfold minimum refreshMaxOf
  omega

/-- The map collected from the known addresses, asked for an id. -/
def knownIn (known : List (String × SocketAddr)) (id : String) : Option SocketAddr :=
  (known.reverse.find? fun entry => entry.1 = id).map Prod.snd

/-- The member pushed for a record. -/
def located (known : List (String × SocketAddr)) (record : SrvRecord)
    (answer : Except String (List IpAddr)) : Option RingMember :=
  let id := canonicalMemberId record.target
  let previous := (knownIn known id).map fun previous => ⟨id, ⟨previous.ip, record.port⟩⟩
  match answer with
  | .ok ips =>
    match ips.min? with
    | some ip => some ⟨id, ⟨ip, record.port⟩⟩
    | none => previous
  | .error _ => previous

variable (state : RingState) (refreshMax : Nat)

def Loop.start : Loop := ⟨state.initial, .srv, minimum⟩

def Loop.fire (loop : Loop) : LoopEvent → Option Loop
  | .request request => some { loop with inner := state.perform loop.inner request.call }
  | .srv answer =>
    match loop.phase with
    | .srv =>
      match answer with
      | .ok snapshot =>
        let known := knownAddresses loop.inner
        some { loop with phase := .ips known snapshot.records [] snapshot.ttl }
      | .error error =>
        let inner := recordRefreshError loop.inner error
        if durationMax < loop.backoff * 2 then some { loop with inner, phase := .panicked }
        else
          some {
            inner
            phase := .sleeping ⟨loop.backoff, 5, 10⟩
            backoff := max (min (loop.backoff * 2) refreshMax) minimum }
    | _ => none
  | .ips answer =>
    match loop.phase with
    | .ips known (record :: left) members ttl =>
      let members := members ++ (located known record answer).toList
      some { loop with phase := .ips known left members ttl }
    | _ => none
  | .apply now =>
    match loop.phase with
    | .ips _ [] members ttl =>
      some {
        inner := state.applySnapshot loop.inner now members
        -- `ttl.clamp(minimum, refresh_max)`
        phase := .sleeping ⟨max minimum (min ttl refreshMax), 7, 9⟩
        backoff := minimum }
    | _ => none
  | .awake =>
    match loop.phase with
    | .sleeping _ => some { loop with phase := .srv }
    | _ => none
  | .cancelled =>
    match loop.phase with
    | .sleeping _ => some { loop with phase := .returned }
    | _ => none

def Loop.run (loop : Loop) (events : List LoopEvent) : Option Loop :=
  events.foldlM (Loop.fire state refreshMax) loop

/-! ## Whole passes -/

/-- A record with what the lookup of its target said. -/
abbrev Answered := SrvRecord × Except String (List IpAddr)

/-- What happens to the shared state in one piece. -/
inductive Settled where
  | request (request : RouteCall)
  | refreshed (answers : List Answered) (now : UInt64)
  | failed (error : String)

/-- The pass looks up known addresses and replaces the membership at once. -/
def settle (inner : RingInner) : Settled → RingInner
  | .request request => state.perform inner request.call
  | .refreshed answers now =>
    state.applySnapshot inner now
      (answers.filterMap fun answered => located (knownAddresses inner) answered.1 answered.2)
  | .failed error => recordRefreshError inner error

/-- The answers of a pass: the records left to look up and those looked up. -/
structure Heard where
  left : List SrvRecord
  done : List Answered

/-- The next record's target has been looked up. -/
def Heard.add (heard : Heard) (answer : Except String (List IpAddr)) : Heard :=
  match heard.left with
  | record :: left => ⟨left, heard.done ++ [(record, answer)]⟩
  | [] => heard

def Heard.next (heard : Option Heard) : LoopEvent → Option Heard
  | .srv (.ok snapshot) => some ⟨snapshot.records, []⟩
  | .ips answer => heard.map fun heard => heard.add answer
  | .apply _ => none
  | _ => heard

def Heard.settled (heard : Option Heard) : LoopEvent → Option Settled
  | .request request => some (.request request)
  | .srv (.error error) => some (.failed error)
  | .apply now => (heard.filter fun heard => heard.left.isEmpty).map fun heard =>
      .refreshed heard.done now
  | _ => none

/-- The events as they tell on the shared state, from within a pass or between two. -/
def settlements : Option Heard → List LoopEvent → List Settled
  | _, [] => []
  | heard, event :: events =>
    (Heard.settled heard event).toList ++ settlements (Heard.next heard event) events

variable {state refreshMax} {inner : RingInner} {loop loop' : Loop} {event : LoopEvent}
  {events : List LoopEvent}

/-- A pass whose lookups a resolver answers is `refresh_once`. -/
theorem settle_refreshed {resolver : Resolver} {srvName : String} {snapshot : SrvSnapshot}
    (hsrv : resolver.srv srvName = .ok snapshot) (inner : RingInner) (now : UInt64) :
    state.settle inner (.refreshed
        (snapshot.records.map fun record => (record, resolver.ips record.target)) now) =
      (state.refreshOnce resolver srvName inner now).2 := by
  have hlocated : ∀ record : SrvRecord,
      located (knownAddresses inner) record (resolver.ips record.target) =
        memberOf resolver inner record := by
    intro record
    unfold located memberOf targetIp
    cases resolver.ips record.target with
    | error _ =>
      rw [Option.map_map]
      rfl
    | ok ips =>
      cases hmin : ips.min? with
      | some ip => simp [hmin]
      | none =>
        simp only [hmin, Option.map_map]
        rfl
  rw [refreshOnce, hsrv]
  show state.applySnapshot inner now _ = state.applySnapshot inner now _
  rw [discovered, List.filterMap_map]
  exact congrArg _ (List.filterMap_congr fun record _ => hlocated record)

/-! ## Requests leave the last snapshot alone -/

/-- Who is a member, where, and what `/status` says of the last pass. -/
structure SameSnapshot (before after : RingInner) : Prop where
  known : knownAddresses after = knownAddresses before
  lastRefresh : after.lastRefresh = before.lastRefresh
  lastError : after.lastError = before.lastError

theorem SameSnapshot.refl (inner : RingInner) : SameSnapshot inner inner := ⟨rfl, rfl, rfl⟩

theorem SameSnapshot.trans {a b c : RingInner} (hab : SameSnapshot a b)
    (hbc : SameSnapshot b c) : SameSnapshot a c where
  known := hbc.known.trans hab.known
  lastRefresh := hbc.lastRefresh.trans hab.lastRefresh
  lastError := hbc.lastError.trans hab.lastError

theorem rebuild_sameSnapshot (inner : RingInner) (now : UInt64) :
    SameSnapshot inner (state.rebuild inner now) := by
  refine ⟨?_, rfl, rfl⟩
  unfold knownAddresses
  rw [rebuild_members, List.map_map]
  refine List.map_congr_left fun health _ => ?_
  show ((health.reinstate now).id, (health.reinstate now).member.address) = _
  rw [MemberHealth.reinstate_id, MemberHealth.reinstate_member]

theorem update_sameSnapshot (inner : RingInner) (id : String) {f : MemberHealth → MemberHealth}
    (hmember : ∀ health, (f health).member = health.member) :
    SameSnapshot inner (inner.update id f) := by
  refine ⟨?_, rfl, rfl⟩
  unfold knownAddresses RingInner.update
  rw [List.map_map]
  refine List.map_congr_left fun health _ => ?_
  show ((if health.id = id then f health else health).member.id,
    (if health.id = id then f health else health).member.address) = _
  split
  · rw [hmember]
    rfl
  · rfl

/-- Only the loop changes who is a member and where. -/
theorem request_sameSnapshot (hok : inner.Ok state) (request : RouteCall) :
    SameSnapshot inner (state.perform inner request.call) := by
  cases request with
  | ring now =>
    rw [RouteCall.call, perform]
    rcases ring_cases state inner now with ⟨-, heq⟩ | ⟨-, heq⟩
    · rw [heq]
      exact .refl inner
    · rw [heq]
      exact rebuild_sameSnapshot inner now
  | recordSuccess id =>
    rw [RouteCall.call, perform, recordSuccess_eq hok.ordered]
    exact update_sameSnapshot inner id fun _ => rfl
  | recordFailure now id =>
    rw [RouteCall.call, perform]
    rcases @recordFailure_cases state _ hok.ordered now id with
      ⟨-, heq⟩ | ⟨health, -, ⟨-, heq⟩ | ⟨-, -, heq⟩⟩
    · rw [heq]
      exact .refl inner
    · rw [heq]
      exact update_sameSnapshot inner id fun _ => rfl
    · rw [heq]
      have hout := update_sameSnapshot inner id (f := eject (now + state.retryTimeoutSeconds))
        fun _ => rfl
      exact hout.trans (rebuild_sameSnapshot _ now)

/-! ## The loop is its whole passes -/

/-- What a step can be. -/
inductive Loop.Fired (state : RingState) (refreshMax : Nat) (loop : Loop) :
    LoopEvent → Loop → Prop where
  | request (request : RouteCall) : Fired state refreshMax loop (.request request)
      { loop with inner := state.perform loop.inner request.call }
  | answered (snapshot : SrvSnapshot) (h : loop.phase = .srv) :
      Fired state refreshMax loop (.srv (.ok snapshot))
        { loop with
          phase := .ips (knownAddresses loop.inner) snapshot.records [] snapshot.ttl }
  | failed (error : String) (h : loop.phase = .srv) :
      Fired state refreshMax loop (.srv (.error error))
        ⟨recordRefreshError loop.inner error, .sleeping ⟨loop.backoff, 5, 10⟩,
          max (min (loop.backoff * 2) refreshMax) minimum⟩
  | panicked (error : String) (h : loop.phase = .srv) :
      Fired state refreshMax loop (.srv (.error error))
        { loop with inner := recordRefreshError loop.inner error, phase := .panicked }
  | located {known : List (String × SocketAddr)} {record : SrvRecord} {left : List SrvRecord}
      {members : List RingMember} {ttl : Nat} (answer : Except String (List IpAddr))
      (h : loop.phase = .ips known (record :: left) members ttl) :
      Fired state refreshMax loop (.ips answer)
        { loop with
          phase := .ips known left (members ++ (located known record answer).toList) ttl }
  | applied {known : List (String × SocketAddr)} {members : List RingMember} {ttl : Nat}
      (now : UInt64) (h : loop.phase = .ips known [] members ttl) :
      Fired state refreshMax loop (.apply now)
        ⟨state.applySnapshot loop.inner now members,
          .sleeping ⟨max minimum (min ttl refreshMax), 7, 9⟩, minimum⟩
  | awake {delay : Jitter} (h : loop.phase = .sleeping delay) :
      Fired state refreshMax loop .awake { loop with phase := .srv }
  | cancelled {delay : Jitter} (h : loop.phase = .sleeping delay) :
      Fired state refreshMax loop .cancelled { loop with phase := .returned }

theorem fired (hfire : loop.fire state refreshMax event = some loop') :
    loop.Fired state refreshMax event loop' := by
  obtain ⟨inner, phase, backoff⟩ := loop
  cases event with
  | request request =>
    cases hfire
    exact .request request
  | srv answer =>
    cases phase with
    | srv =>
      cases answer with
      | ok snapshot =>
        cases hfire
        exact .answered snapshot rfl
      | error error =>
        rw [Loop.fire] at hfire
        dsimp only at hfire
        split at hfire
        · cases hfire
          exact .panicked error rfl
        · cases hfire
          exact .failed error rfl
    | ips known left members ttl => cases hfire
    | sleeping delay => cases hfire
    | returned => cases hfire
    | panicked => cases hfire
  | ips answer =>
    cases phase with
    | ips known left members ttl =>
      cases left with
      | nil => cases hfire
      | cons record left =>
        cases hfire
        exact .located answer rfl
    | srv => cases hfire
    | sleeping delay => cases hfire
    | returned => cases hfire
    | panicked => cases hfire
  | apply now =>
    cases phase with
    | ips known left members ttl =>
      cases left with
      | nil =>
        cases hfire
        exact .applied now rfl
      | cons record left => cases hfire
    | srv => cases hfire
    | sleeping delay => cases hfire
    | returned => cases hfire
    | panicked => cases hfire
  | awake =>
    cases phase with
    | sleeping delay =>
      cases hfire
      exact .awake rfl
    | srv => cases hfire
    | ips known left members ttl => cases hfire
    | returned => cases hfire
    | panicked => cases hfire
  | cancelled =>
    cases phase with
    | sleeping delay =>
      cases hfire
      exact .cancelled rfl
    | srv => cases hfire
    | ips known left members ttl => cases hfire
    | returned => cases hfire
    | panicked => cases hfire

/-- What the loop has in hand belongs to the answers heard and the members there are. -/
structure Tracks (state : RingState) (heard : Option Heard) (loop : Loop) : Prop where
  ok : loop.inner.Ok state
  pass : ∀ known left members ttl, loop.phase = .ips known left members ttl →
    ∃ done, heard = some ⟨left, done⟩ ∧ known = knownAddresses loop.inner ∧
      members = done.filterMap fun answered => located known answered.1 answered.2

theorem settle_ok (hok : inner.Ok state) (settled : Settled) :
    (state.settle inner settled).Ok state := by
  cases settled with
  | request request => exact perform_ok hok _
  | refreshed answers now => exact applySnapshot_ok hok now _
  | failed error => exact perform_ok hok (.recordRefreshError error)

theorem Tracks.fire {heard : Option Heard} (h : Tracks state heard loop)
    (hfire : loop.fire state refreshMax event = some loop') :
    Tracks state (Heard.next heard event) loop' ∧
      loop'.inner = (Heard.settled heard event).toList.foldl state.settle loop.inner := by
  cases fired hfire with
  | request request =>
    refine ⟨⟨perform_ok h.ok _, ?_⟩, rfl⟩
    intro known left members ttl hphase
    obtain ⟨done, hheard, hknown, hmembers⟩ := h.pass known left members ttl hphase
    exact ⟨done, hheard, hknown.trans (request_sameSnapshot h.ok request).known.symm, hmembers⟩
  | answered snapshot _ =>
    refine ⟨⟨h.ok, ?_⟩, rfl⟩
    rintro known left members ttl ⟨⟩
    exact ⟨[], rfl, rfl, rfl⟩
  | failed error _ | panicked error _ =>
    refine ⟨⟨settle_ok h.ok (.failed error), ?_⟩, rfl⟩
    rintro known left members ttl ⟨⟩
  | @located known record left members ttl answer hphase =>
    obtain ⟨done, rfl, hknown, hmembers⟩ := h.pass _ _ _ _ hphase
    refine ⟨⟨h.ok, ?_⟩, rfl⟩
    rintro _ _ _ _ ⟨⟩
    refine ⟨done ++ [(record, answer)], rfl, hknown, ?_⟩
    rw [List.filterMap_append, hmembers]
    cases hlocated : RingState.located known record answer <;> simp [hlocated]
  | @applied known members ttl now hphase =>
    obtain ⟨done, rfl, hknown, hmembers⟩ := h.pass _ _ _ _ hphase
    refine ⟨⟨applySnapshot_ok h.ok now members, ?_⟩, ?_⟩
    · rintro _ _ _ _ ⟨⟩
    · show state.applySnapshot loop.inner now members = state.applySnapshot loop.inner now _
      rw [hmembers, hknown]
  | awake _ =>
    refine ⟨⟨h.ok, ?_⟩, rfl⟩
    rintro _ _ _ _ ⟨⟩
  | cancelled _ =>
    refine ⟨⟨h.ok, ?_⟩, rfl⟩
    rintro _ _ _ _ ⟨⟩

theorem run_cons : loop.run state refreshMax (event :: events) = some loop' ↔
    ∃ middle, loop.fire state refreshMax event = some middle ∧
      middle.run state refreshMax events = some loop' := by
  unfold Loop.run
  rw [List.foldlM_cons]
  exact Option.bind_eq_some_iff

theorem run_append (loop : Loop) (before after : List LoopEvent) :
    loop.run state refreshMax (before ++ after) =
      (loop.run state refreshMax before).bind fun middle => middle.run state refreshMax after :=
  List.foldlM_append

/-- A run from anywhere between two passes, or from within one. -/
theorem Tracks.run {heard : Option Heard} (h : Tracks state heard loop)
    (hrun : loop.run state refreshMax events = some loop') :
    (∃ heard', Tracks state heard' loop') ∧
      loop'.inner = (settlements heard events).foldl state.settle loop.inner := by
  induction events generalizing heard loop with
  | nil =>
    cases hrun
    exact ⟨⟨heard, h⟩, rfl⟩
  | cons event events ih =>
    obtain ⟨middle, hfire, hrest⟩ := run_cons.mp hrun
    obtain ⟨hmiddle, hinner⟩ := h.fire hfire
    obtain ⟨htracks, hafter⟩ := ih hmiddle hrest
    refine ⟨htracks, ?_⟩
    rw [hafter, hinner, settlements, List.foldl_append]

theorem Tracks.start : Tracks state none (Loop.start state) := by
  refine ⟨initial_ok, ?_⟩
  rintro _ _ _ _ ⟨⟩

/-- However the calls of requests fall between the steps of the loop, the shared state is what
whole passes leave, one after the other: each looks up the members of the moment it replaces
them, and a pass without an SRV answer changes nothing but the error. -/
theorem discovery_atomic (state : RingState) (argument : UInt64) (events : List LoopEvent)
    (loop : Loop)
    (hrun : (Loop.start state).run state (refreshMaxOf argument) events = some loop) :
    loop.inner = (settlements none events).foldl state.settle state.initial :=
  (Tracks.start.run hrun).2

/-! ### A failure in the middle of a pass -/

def sampleState : RingState := new (fun _ => ⟨List.replicate 32 1, rfl⟩) 1 30

def samplePass (now : UInt64) (lookup : Except String (List IpAddr)) : List LoopEvent :=
  [.srv (.ok ⟨[⟨"flywheel-1.cache.", 8080⟩], 30000000000⟩), .ips lookup, .apply now]

def sampleRefresh : List LoopEvent :=
  [.awake, .srv (.ok ⟨[⟨"flywheel-1.cache.", 8080⟩], 30000000000⟩),
    .request (.recordFailure 6 "flywheel-1.cache"), .ips (.error "timed out"), .apply 7]

def sampleRun : List LoopEvent := samplePass 5 (.ok [.v4 0x0a000002#32]) ++ sampleRefresh

theorem sampleRun_members :
    ((Loop.start sampleState).run sampleState (refreshMaxOf 60) sampleRun).map
        (fun loop => loop.inner.members) =
      some [⟨⟨"flywheel-1.cache", ⟨.v4 0x0a000002#32, 8080⟩⟩, 1, some 36⟩] := by
  decide

/-- The failure that ejects the only member comes between the SRV answer and the replacement,
and is carried over. -/
theorem failure_carried_over :
    ∃ loop, (Loop.start sampleState).run sampleState (refreshMaxOf 60) sampleRun = some loop ∧
      loop.inner.members = [⟨⟨"flywheel-1.cache", ⟨.v4 0x0a000002#32, 8080⟩⟩, 1, some 36⟩] ∧
      loop.inner = (settlements none sampleRun).foldl sampleState.settle sampleState.initial := by
  obtain ⟨loop, hrun, hmembers⟩ := Option.map_eq_some_iff.mp sampleRun_members
  exact ⟨loop, hrun, hmembers, discovery_atomic sampleState 60 sampleRun loop hrun⟩

/-! ## What the loop sleeps for, and what the status says -/

/-- The failed passes since the last replacement, its time, the last failure if there was one
since, and the TTL of the last SRV answer. -/
structure PassLog where
  failures : Nat
  refreshedAt : Option UInt64
  error : Option String
  ttl : Nat

def PassLog.note (log : PassLog) : LoopEvent → PassLog
  | .srv (.ok snapshot) => { log with ttl := snapshot.ttl }
  | .srv (.error error) => { log with failures := log.failures + 1, error := some error }
  | .apply now => { log with failures := 0, refreshedAt := some now, error := none }
  | _ => log

def passLog (events : List LoopEvent) : PassLog :=
  events.foldl PassLog.note ⟨0, none, none, 0⟩

/-- Doubled with each failure, up to the longest delay. -/
def backoffAfter (refreshMax failures : Nat) : Nat := min (2 ^ failures * minimum) refreshMax

/-- After a failure the backoff of the failures before it, else the TTL within its bounds. -/
def PassLog.delay (log : PassLog) (refreshMax : Nat) : Jitter :=
  if log.failures = 0 then ⟨max minimum (min log.ttl refreshMax), 7, 9⟩
  else ⟨backoffAfter refreshMax (log.failures - 1), 5, 10⟩

structure Logged (refreshMax : Nat) (log : PassLog) (loop : Loop) : Prop where
  backoff : loop.phase ≠ .panicked → loop.backoff = backoffAfter refreshMax log.failures
  lastRefresh : loop.inner.lastRefresh = log.refreshedAt
  lastError : loop.inner.lastError = log.error
  ttl : ∀ known left members ttl, loop.phase = .ips known left members ttl → ttl = log.ttl
  delay : ∀ delay, loop.phase = .sleeping delay → delay = log.delay refreshMax

theorem backoffAfter_zero (hmin : minimum ≤ refreshMax) : backoffAfter refreshMax 0 = minimum := by
  unfold backoffAfter
  omega

theorem backoffAfter_succ (hmin : minimum ≤ refreshMax) (failures : Nat) :
    max (min (backoffAfter refreshMax failures * 2) refreshMax) minimum =
      backoffAfter refreshMax (failures + 1) := by
  have hpos : minimum ≤ 2 ^ failures * minimum := Nat.le_mul_of_pos_left _ (Nat.two_pow_pos _)
  have hdouble : 2 ^ (failures + 1) * minimum = 2 ^ failures * minimum * 2 := by
    rw [Nat.pow_succ, Nat.mul_right_comm]
  unfold backoffAfter
  omega

theorem Logged.fire {log : PassLog} (hmin : minimum ≤ refreshMax) (hok : loop.inner.Ok state)
    (h : Logged refreshMax log loop) (hfire : loop.fire state refreshMax event = some loop') :
    Logged refreshMax (log.note event) loop' := by
  cases fired hfire with
  | request request =>
    have hsame := request_sameSnapshot hok request
    exact ⟨h.backoff, hsame.lastRefresh.trans h.lastRefresh, hsame.lastError.trans h.lastError,
      h.ttl, h.delay⟩
  | answered snapshot hphase =>
    have hbackoff := h.backoff (by rw [hphase]; nofun)
    refine ⟨fun _ => hbackoff, h.lastRefresh, h.lastError, ?_, ?_⟩
    · rintro _ _ _ _ ⟨⟩
      rfl
    · rintro _ ⟨⟩
  | failed error hphase =>
    have hbackoff := h.backoff (by rw [hphase]; nofun)
    refine ⟨fun _ => ?_, h.lastRefresh, rfl, ?_, ?_⟩
    · show max (min (loop.backoff * 2) refreshMax) minimum = _
      rw [hbackoff]
      exact backoffAfter_succ hmin log.failures
    · rintro _ _ _ _ ⟨⟩
    · rintro _ ⟨⟩
      rw [hbackoff]
      rfl
  | panicked error _ =>
    refine ⟨fun hphase => absurd rfl hphase, h.lastRefresh, rfl, ?_, ?_⟩
    · rintro _ _ _ _ ⟨⟩
    · rintro _ ⟨⟩
  | located answer hphase =>
    have hbackoff := h.backoff (by rw [hphase]; nofun)
    refine ⟨fun _ => hbackoff, h.lastRefresh, h.lastError, ?_, ?_⟩
    · rintro _ _ _ _ ⟨⟩
      exact h.ttl _ _ _ _ hphase
    · rintro _ ⟨⟩
  | applied now hphase =>
    refine ⟨fun _ => (backoffAfter_zero hmin).symm, rfl, rfl, ?_, ?_⟩
    · rintro _ _ _ _ ⟨⟩
    · rintro _ ⟨⟩
      rw [h.ttl _ _ _ _ hphase]
      rfl
  | awake hphase | cancelled hphase =>
    have hbackoff := h.backoff (by rw [hphase]; nofun)
    refine ⟨fun _ => hbackoff, h.lastRefresh, h.lastError, ?_, ?_⟩
    · rintro _ _ _ _ ⟨⟩
    · rintro _ ⟨⟩

theorem Logged.run {heard : Option Heard} {log : PassLog} (hmin : minimum ≤ refreshMax)
    (htracks : Tracks state heard loop) (h : Logged refreshMax log loop)
    (hrun : loop.run state refreshMax events = some loop') :
    Logged refreshMax (events.foldl PassLog.note log) loop' := by
  induction events generalizing heard log loop with
  | nil =>
    cases hrun
    exact h
  | cons event events ih =>
    obtain ⟨middle, hfire, hrest⟩ := run_cons.mp hrun
    exact ih (htracks.fire hfire).1 (h.fire hmin htracks.ok hfire) hrest

/-- However the requests fall, the loop doubles its backoff from one second with each pass that
gets no SRV answer, and starts again after one that does; the status has the time of the last
replacement, and the last failure only until the next one. -/
theorem discovery_backs_off (state : RingState) (argument : UInt64) (events : List LoopEvent)
    (loop : Loop)
    (hrun : (Loop.start state).run state (refreshMaxOf argument) events = some loop) :
    loop.inner.lastRefresh = (passLog events).refreshedAt ∧
      loop.inner.lastError = (passLog events).error ∧
      ∀ delay, loop.phase = .sleeping delay →
        delay = (passLog events).delay (refreshMaxOf argument) ∧
        minimum ≤ delay.duration ∧ delay.duration ≤ refreshMaxOf argument := by
  have hmin := minimum_le argument
  have hstart : Logged (refreshMaxOf argument) ⟨0, none, none, 0⟩ (Loop.start state) := by
    refine ⟨fun _ => (backoffAfter_zero hmin).symm, rfl, rfl, ?_, ?_⟩
    · rintro _ _ _ _ ⟨⟩
    · rintro _ ⟨⟩
  have hlogged := hstart.run hmin Tracks.start hrun
  refine ⟨hlogged.lastRefresh, hlogged.lastError, fun delay hphase => ?_⟩
  have hdelay : delay = (passLog events).delay (refreshMaxOf argument) :=
    hlogged.delay delay hphase
  refine ⟨hdelay, ?_⟩
  rw [hdelay, PassLog.delay]
  split
  · show minimum ≤ max minimum _ ∧ max minimum _ ≤ _
    omega
  · have hpos : minimum ≤ 2 ^ ((passLog events).failures - 1) * minimum :=
      Nat.le_mul_of_pos_left _ (Nat.two_pow_pos _)
    show minimum ≤ backoffAfter _ _ ∧ backoffAfter _ _ ≤ _
    unfold backoffAfter
    omega

/-- After three failures in a row the loop sleeps for two to four seconds, and the status has
the time of the replacement before them. -/
theorem sample_backs_off :
    ∃ loop, (Loop.start sampleState).run sampleState (refreshMaxOf 60)
        (samplePass 5 (.ok [.v4 0x0a000002#32]) ++ [.awake, .srv (.error "refused"), .awake,
          .srv (.error "refused"), .awake, .srv (.error "timed out")]) = some loop ∧
      loop.phase = .sleeping ⟨4000000000, 5, 10⟩ ∧ loop.inner.lastRefresh = some 5 ∧
      loop.inner.lastError = some "timed out" := by
  obtain ⟨loop, hrun, hphase⟩ := Option.map_eq_some_iff.mp (show
    ((Loop.start sampleState).run sampleState (refreshMaxOf 60)
        (samplePass 5 (.ok [.v4 0x0a000002#32]) ++ [.awake, .srv (.error "refused"), .awake,
          .srv (.error "refused"), .awake, .srv (.error "timed out")])).map Loop.phase =
      some (.sleeping ⟨4000000000, 5, 10⟩) by decide +kernel)
  obtain ⟨hrefresh, herror, -⟩ := discovery_backs_off sampleState 60 _ loop hrun
  exact ⟨loop, hrun, hphase, hrefresh, herror⟩

/-! ## A member that stays listed -/

theorem knownIn_knownAddresses (hok : inner.Ok state) (id : String) :
    knownIn (knownAddresses inner) id = (inner.find id).map fun health => health.member.address := by
  have hmem : ∀ entry, (knownAddresses inner).reverse.find? (fun entry => entry.1 = id) =
      some entry → ∃ health, inner.find id = some health ∧ entry.2 = health.member.address := by
    intro entry hentry
    have hin := List.mem_reverse.mp (List.mem_of_find?_eq_some hentry)
    obtain ⟨health, hhealth, rfl⟩ := List.mem_map.mp hin
    have hdecide := List.find?_some hentry
    have hid : health.id = id := of_decide_eq_true hdecide
    exact ⟨health, hok.find_iff.mpr ⟨hhealth, hid⟩, rfl⟩
  unfold knownIn
  cases hfound : (knownAddresses inner).reverse.find? (fun entry => entry.1 = id) with
  | some entry =>
    obtain ⟨health, hfind, haddress⟩ := hmem entry hfound
    rw [hfind, Option.map_some, Option.map_some, haddress]
  | none =>
    cases hfind : inner.find id with
    | none => rfl
    | some health =>
      obtain ⟨hhealth, hid⟩ := hok.find_iff.mp hfind
      have hentry : (health.id, health.member.address) ∈ (knownAddresses inner).reverse :=
        List.mem_reverse.mpr (List.mem_map_of_mem hhealth)
      have hnone := List.find?_eq_none.mp hfound _ hentry
      exact absurd (decide_eq_true hid) hnone

/-- Where a record's member is reached: at an address of the answer, or where it was. -/
theorem located_eq_some {known : List (String × SocketAddr)} {record : SrvRecord}
    {answer : Except String (List IpAddr)} {m : RingMember}
    (h : located known record answer = some m) :
    m.id = canonicalMemberId record.target ∧
      ((∃ ips, answer = .ok ips ∧ ips.min? = some m.address.ip) ∨
        ∃ previous, knownIn known m.id = some previous ∧ m.address.ip = previous.ip) := by
  have hprevious : (knownIn known (canonicalMemberId record.target)).map (fun previous =>
        (⟨canonicalMemberId record.target, ⟨previous.ip, record.port⟩⟩ : RingMember)) = some m →
      m.id = canonicalMemberId record.target ∧
        ∃ previous, knownIn known m.id = some previous ∧ m.address.ip = previous.ip := by
    intro hmap
    obtain ⟨previous, hknown, rfl⟩ := Option.map_eq_some_iff.mp hmap
    exact ⟨rfl, previous, hknown, rfl⟩
  unfold located at h
  cases answer with
  | error _ =>
    obtain ⟨hid, hkept⟩ := hprevious h
    exact ⟨hid, .inr hkept⟩
  | ok ips =>
    cases hmin : ips.min? with
    | none =>
      simp only [hmin] at h
      obtain ⟨hid, hkept⟩ := hprevious h
      exact ⟨hid, .inr hkept⟩
    | some ip =>
      simp only [hmin] at h
      cases h
      exact ⟨rfl, .inl ⟨ips, rfl, hmin⟩⟩

/-- A known member is located whatever the lookup says. -/
theorem located_isSome {known : List (String × SocketAddr)} {record : SrvRecord}
    (hknown : (knownIn known (canonicalMemberId record.target)).isSome)
    (answer : Except String (List IpAddr)) : (located known record answer).isSome := by
  obtain ⟨previous, hprevious⟩ := Option.isSome_iff_exists.mp hknown
  simp only [located, hprevious, Option.map_some]
  cases answer with
  | error _ => rfl
  | ok ips => cases hmin : ips.min? <;> simp only [hmin, Option.isSome_some]

/-- The address is the one before, or a lookup for the member has given it. -/
def FromLookup (settled : List Settled) (id : String) (ip : IpAddr) : Prop :=
  ∃ answers now record ips, .refreshed answers now ∈ settled ∧ (record, .ok ips) ∈ answers ∧
    canonicalMemberId record.target = id ∧ ips.min? = some ip

def ListedIn (id : String) (answers : List Answered) : Prop :=
  ∃ answered ∈ answers, canonicalMemberId answered.1.target = id

theorem settle_listed {id : String} {health : MemberHealth} (hok : inner.Ok state)
    (hfind : inner.find id = some health) (settled : Settled)
    (hlisted : ∀ answers now, settled = .refreshed answers now → ListedIn id answers) :
    ∃ health', (state.settle inner settled).find id = some health' ∧
      (health'.member.address.ip = health.member.address.ip ∨
        FromLookup [settled] id health'.member.address.ip) := by
  have hknown := knownIn_knownAddresses hok id
  rw [hfind, Option.map_some] at hknown
  -- what leaves the addresses alone leaves this one alone
  have hsame : ∀ {inner' : RingInner}, inner'.Ok state →
      knownAddresses inner' = knownAddresses inner →
      ∃ health', inner'.find id = some health' ∧
        health'.member.address = health.member.address := by
    intro inner' hok' heq
    have hknown' := knownIn_knownAddresses hok' id
    rw [heq, hknown] at hknown'
    obtain ⟨health', hfind', haddress⟩ := Option.map_eq_some_iff.mp hknown'.symm
    exact ⟨health', hfind', haddress⟩
  cases settled with
  | request request =>
    obtain ⟨health', hfind', haddress⟩ := hsame (settle_ok hok (.request request))
      (request_sameSnapshot hok request).known
    exact ⟨health', hfind', .inl (congrArg SocketAddr.ip haddress)⟩
  | failed error => exact ⟨health, hfind, .inl rfl⟩
  | refreshed answers now =>
    obtain ⟨⟨record, answer⟩, hmem, hid⟩ := hlisted answers now rfl
    have hsome : (findKey RingMember.id id (answers.filterMap fun answered =>
        located (knownAddresses inner) answered.1 answered.2)).isSome := by
      have hlocated := located_isSome (by rw [hid, hknown]; rfl : (knownIn (knownAddresses inner)
        (canonicalMemberId record.target)).isSome) answer
      obtain ⟨m, hm⟩ := Option.isSome_iff_exists.mp hlocated
      refine findKey_isSome.mpr ⟨m, List.mem_filterMap.mpr ⟨_, hmem, hm⟩, ?_⟩
      exact (located_eq_some hm).1.trans hid
    obtain ⟨m, hm⟩ := Option.isSome_iff_exists.mp hsome
    have hmid := key_of_findKey hm
    obtain ⟨⟨record', answer'⟩, hmem', hm'⟩ := List.mem_filterMap.mp (mem_of_findKey hm)
    obtain ⟨hid', hwhere⟩ := located_eq_some hm'
    refine ⟨(carryOver inner.members m).reinstate now, ?_, ?_⟩
    · show (state.applySnapshot inner now _).find id = _
      rw [applySnapshot_find, hm, Option.map_some]
    · rw [MemberHealth.reinstate_member]
      show m.address.ip = _ ∨ FromLookup _ _ m.address.ip
      rcases hwhere with ⟨ips, rfl, hips⟩ | ⟨previous, hprevious, hip⟩
      · exact .inr ⟨answers, now, record', ips, List.mem_singleton.mpr rfl, hmem',
          hid'.symm.trans hmid, hips⟩
      · rw [hmid, hknown] at hprevious
        cases hprevious
        exact .inl hip

theorem FromLookup.mono {settled settled' : List Settled} {id : String} {ip : IpAddr}
    (hsub : ∀ s ∈ settled, s ∈ settled') (h : FromLookup settled id ip) :
    FromLookup settled' id ip := by
  obtain ⟨answers, now, record, ips, hmem, hrest⟩ := h
  exact ⟨answers, now, record, ips, hsub _ hmem, hrest⟩

theorem settlements_listed {id : String} {health : MemberHealth} (hok : inner.Ok state)
    (hfind : inner.find id = some health) (settled : List Settled)
    (hlisted : ∀ answers now, .refreshed answers now ∈ settled → ListedIn id answers) :
    ∃ health', (settled.foldl state.settle inner).find id = some health' ∧
      (health'.member.address.ip = health.member.address.ip ∨
        FromLookup settled id health'.member.address.ip) := by
  induction settled generalizing inner health with
  | nil => exact ⟨health, hfind, .inl rfl⟩
  | cons first rest ih =>
    obtain ⟨middle, hmiddle, hip⟩ := settle_listed hok hfind first <| by
      rintro answers now rfl
      exact hlisted answers now List.mem_cons_self
    obtain ⟨health', hfind', hip'⟩ := ih (settle_ok hok first) hmiddle fun answers now hmem =>
      hlisted answers now (List.mem_cons_of_mem _ hmem)
    refine ⟨health', hfind', ?_⟩
    rcases hip' with heq | hfrom
    · rw [heq]
      refine hip.imp_right (FromLookup.mono ?_)
      intro s hs
      rw [List.mem_singleton.mp hs]
      exact List.mem_cons_self
    · exact .inr (hfrom.mono fun s hs => List.mem_cons_of_mem _ hs)

/-- A pass looks up the records of the SRV answer it got. -/
theorem refreshed_listed {id : String} {heard : Option Heard} {answers : List Answered}
    {now : UInt64}
    (hheard : ∀ pass, heard = some pass →
      ∃ record ∈ pass.done.map Prod.fst ++ pass.left, canonicalMemberId record.target = id)
    (hsrv : ∀ snapshot, .srv (.ok snapshot) ∈ events →
      ∃ record ∈ snapshot.records, canonicalMemberId record.target = id)
    (hmem : .refreshed answers now ∈ settlements heard events) : ListedIn id answers := by
  induction events generalizing heard with
  | nil => cases hmem
  | cons event events ih =>
    have hsrv' := fun snapshot h => hsrv snapshot (List.mem_cons_of_mem event h)
    rw [settlements, List.mem_append] at hmem
    rcases hmem with hhere | hlater
    · cases event with
      | apply time =>
        obtain ⟨pass, hpass, heq⟩ := Option.map_eq_some_iff.mp (Option.mem_toList.mp hhere)
        obtain ⟨hsome, hleft⟩ := Option.filter_eq_some_iff.mp hpass
        cases heq
        obtain ⟨record, hrecord, hid⟩ := hheard pass hsome
        rw [List.isEmpty_iff.mp hleft, List.append_nil] at hrecord
        obtain ⟨answered, hanswered, rfl⟩ := List.mem_map.mp hrecord
        exact ⟨answered, hanswered, hid⟩
      | srv answer =>
        cases answer with
        | ok snapshot => cases hhere
        | error error => cases List.mem_singleton.mp hhere
      | request request => cases List.mem_singleton.mp hhere
      | ips answer => cases hhere
      | awake => cases hhere
      | cancelled => cases hhere
    · refine ih ?_ hsrv' hlater
      intro pass hpass
      cases event with
      | srv answer =>
        cases answer with
        | ok snapshot =>
          cases hpass
          exact hsrv snapshot List.mem_cons_self
        | error error => exact hheard pass hpass
      | ips answer =>
        obtain ⟨before, hbefore, rfl⟩ := Option.map_eq_some_iff.mp hpass
        obtain ⟨record, hrecord, hid⟩ := hheard before hbefore
        refine ⟨record, ?_, hid⟩
        unfold Heard.add
        split
        · rename_i _ _ hleft
          rw [hleft] at hrecord
          simpa using hrecord
        · exact hrecord
      | apply time => cases hpass
      | request request => exact hheard pass hpass
      | awake => exact hheard pass hpass
      | cancelled => exact hheard pass hpass

/-- Once a member, and as long as the SRV answers list it, always a member: in the continuum
unless it is ejected, at the address it had or at one that a lookup has given since. -/
theorem listed_member_stays (state : RingState) (argument : UInt64)
    (before after : List LoopEvent) (loop loop' : Loop) (id : String) (health : MemberHealth)
    (hbefore : (Loop.start state).run state (refreshMaxOf argument) before = some loop)
    (hafter : loop.run state (refreshMaxOf argument) after = some loop')
    (hbetween : ∀ known left members ttl, loop.phase ≠ .ips known left members ttl)
    (hfind : loop.inner.find id = some health)
    (hsrv : ∀ snapshot, .srv (.ok snapshot) ∈ after →
      ∃ record ∈ snapshot.records, canonicalMemberId record.target = id) :
    ∃ health', loop'.inner.find id = some health' ∧
      (health'.nextRetry = none → id ∈ loop'.inner.ring.members.map RingMember.id) ∧
      (health'.member.address.ip = health.member.address.ip ∨
        FromLookup (settlements none after) id health'.member.address.ip) := by
  obtain ⟨⟨heard, htracks⟩, -⟩ := Tracks.start.run hbefore
  have hidle : Tracks state none loop := by
    refine ⟨htracks.ok, ?_⟩
    intro known left members ttl hphase
    exact absurd hphase (hbetween known left members ttl)
  obtain ⟨⟨_, htracks'⟩, hinner⟩ := hidle.run hafter
  obtain ⟨health', hfind', hip⟩ := settlements_listed htracks.ok hfind
    (settlements none after) fun answers now hmem => by
      refine refreshed_listed ?_ hsrv hmem
      rintro _ ⟨⟩
  rw [← hinner] at hfind'
  refine ⟨health', hfind', fun hno => ?_, hip⟩
  exact (mem_ring_iff htracks'.ok).mpr ⟨health', hfind', hno⟩

/-- The lookup of the second pass fails, and the first one's address stays. -/
theorem failed_lookup_stays :
    ∃ loop, (Loop.start sampleState).run sampleState (refreshMaxOf 60) sampleRun = some loop ∧
      ∃ health, loop.inner.find "flywheel-1.cache" = some health ∧
        (health.member.address.ip = .v4 0x0a000002#32 ∨
          FromLookup (settlements none sampleRefresh) "flywheel-1.cache"
            health.member.address.ip) := by
  obtain ⟨loop', hrun, -⟩ := Option.map_eq_some_iff.mp sampleRun_members
  have hfirst : ((Loop.start sampleState).run sampleState (refreshMaxOf 60)
        (samplePass 5 (.ok [.v4 0x0a000002#32]))).map
          (fun loop => (loop.phase, loop.inner.find "flywheel-1.cache")) =
      some (.sleeping ⟨30000000000, 7, 9⟩,
        some ⟨⟨"flywheel-1.cache", ⟨.v4 0x0a000002#32, 8080⟩⟩, 0, none⟩) := by
    decide +kernel
  obtain ⟨loop, hbefore, hstate⟩ := Option.map_eq_some_iff.mp hfirst
  obtain ⟨hphase, hfind⟩ := Prod.mk.inj hstate
  have hafter : loop.run sampleState (refreshMaxOf 60) sampleRefresh = some loop' := by
    rw [← hrun, sampleRun, run_append, hbefore, Option.bind_some]
  have hbetween : ∀ known left members ttl, loop.phase ≠ .ips known left members ttl := by
    rw [hphase]
    rintro _ _ _ _ ⟨⟩
  have hsrv : ∀ snapshot, .srv (.ok snapshot) ∈ sampleRefresh →
      ∃ record ∈ snapshot.records, canonicalMemberId record.target = "flywheel-1.cache" := by
    intro snapshot hsnapshot
    have heq : snapshot = ⟨[⟨"flywheel-1.cache.", 8080⟩], 30000000000⟩ := by
      simpa [sampleRefresh] using hsnapshot
    rw [heq]
    exact ⟨_, List.mem_cons_self, by decide⟩
  obtain ⟨health, hfound, -, hip⟩ := listed_member_stays sampleState 60 _ sampleRefresh loop loop'
    "flywheel-1.cache" _ hbefore hafter hbetween hfind hsrv
  exact ⟨loop', hrun, health, hfound, hip⟩

end Flywheel.Agent.RingState
