import Flywheel.Cacheprog.Reader
import Mathlib.Data.List.Perm.Basic

/-!
# The protocol loop (`cacheprog/mod.rs`, `run_with_shutdown`)

The helper greets, then answers requests out of order: a request that was read is in flight
until its future completes. A close stops the reading; its own response waits until nothing is
in flight. Each turn of the loop polls, in this order, the shutdown signal, the reader (unless
there was a close) and the futures in flight; a response that is taken drops the pending call
of the reader.

- `executeRequest`: what a request is answered, by what it meets on disk and network. Whatever
  fails, the answer is a response with its id.
- `Loop.turn`: a turn of the loop.
- `Loop.Accounted`: the messages read so far are those answered and those in flight.
- `one_response_each`: what has been read and written when a run ends by a close.
-/

set_option autoImplicit false

namespace Flywheel.Cacheprog

/-! ## Responses -/

structure Response where
  id : Int := 0
  err : String := ""
  knownCommands : List String := []
  miss : Bool := false
  outputId : Bytes := []
  size : UInt64 := 0
  diskPath : String := ""
  deriving DecidableEq

structure ManifestEntry where
  output : Bytes
  size : UInt64
  lastSeen : UInt64
  deriving DecidableEq

/-- The answer to a GET of the build cache: the `ETag` and the body, as far as it comes. -/
structure Fetched where
  etag : Option Bytes
  body : Except String Bytes

/-- What one request meets: the libraries, the session, the directory and the network. -/
structure Surroundings where
  sha256 : Bytes → Digest
  /-- `serde_json::from_slice` of the line with the body. -/
  jsonString : Bytes → Except String String
  /-- `STANDARD.decode`. -/
  base64Decode : String → Except String Bytes
  /-- The text of an error of `hex::decode`. -/
  hexError : Bytes → String
  /-- `write_disk_file`: the canonical path of the file. -/
  writeDiskFile : Bytes → Bytes → Except String String
  sendPut : Bytes → Bytes → Except String Unit
  manifestEntry : Bytes → Option ManifestEntry
  /-- Whether the file of the entry is there, whether a download of it is in progress, and
  whether it is there when that has ended. -/
  present : Bool
  downloading : Bool
  presentThen : Bool
  canonicalPath : Bytes → Except String String
  sendGet : Bytes → Except String (Option Fetched)

/-- `go-{action}`. -/
def actionKey (action : Bytes) : Bytes := [103, 111, 45] ++ action

/-- The digest that an `ETag` carries: `trim_matches('"')`, then the text after `sha256:`. -/
def etagDigest (etag : Bytes) : Option Bytes :=
  let text := ((etag.dropWhile (· = 34)).reverse.dropWhile (· = 34)).reverse
  if [115, 104, 97, 50, 53, 54, 58] <+: text then some (text.drop 7) else none

section

variable (env : Surroundings) (request : Request)

/-- `hex::decode` of an output. -/
def decodeOutput (output : Bytes) : Except String Bytes :=
  match hexDecode output with
  | some bytes => .ok bytes
  | none => .error (env.hexError output)

/-- `anyhow::ensure!`. -/
def ensure (condition : Bool) (message : String) : Except String Unit :=
  if condition then .ok () else .error message

def bodyText (encodedBody : Bytes) : Except String String :=
  if request.bodySize = 0 then .ok "" else env.jsonString encodedBody

def put (encodedBody : Bytes) : Except String Response := do
  let text ← bodyText env request encodedBody
  let body ← env.base64Decode text
  ensure (UInt64.ofNat body.length = request.bodySize) "cacheprog body size mismatch"
  ensure ((env.sha256 body).bytes = request.outputId) "cacheprog output digest mismatch"
  let output := hexEncode request.outputId
  let diskPath ← env.writeDiskFile output body
  let action := hexEncode request.actionId
  env.sendPut (actionKey action) body
  return { id := request.id, diskPath }

/-- The local answer of a manifest-known action, if its file is there. -/
def getLocal (action : Bytes) : Option (Except String Response) :=
  match env.manifestEntry action with
  | none => none
  | some entry =>
    let present := env.present || (env.downloading && env.presentThen)
    if present then
      some do
        let outputId ← decodeOutput env entry.output
        let diskPath ← env.canonicalPath entry.output
        return { id := request.id, outputId, size := entry.size, diskPath }
    else none

def get : Except String Response := do
  let action := hexEncode request.actionId
  match getLocal env request action with
  | some answer => answer
  | none =>
    match ← env.sendGet (actionKey action) with
    | none => return { id := request.id, miss := true }
    | some fetched =>
      let body ← fetched.body
      let output := hexEncode (env.sha256 body).bytes
      if (fetched.etag.bind etagDigest).any (· ≠ output) then
        return { id := request.id, miss := true }
      else
        let diskPath ← env.writeDiskFile output body
        let outputId ← decodeOutput env output
        return { id := request.id, outputId, size := UInt64.ofNat body.length, diskPath }

def perform (encodedBody : Bytes) : Except String Response :=
  if request.command = "put" then put env request encodedBody
  else if request.command = "get" then get env request
  else .error ("unsupported command " ++ request.command)

def executeRequest (encodedBody : Bytes) : Response :=
  match perform env request encodedBody with
  | .ok response => response
  | .error error => { id := request.id, err := error }

end

/-! ### Every answer has the id of its request -/

section

variable {env : Surroundings} {request : Request} {encodedBody : Bytes} {response : Response}

theorem bind_eq_ok {α β : Type} {x : Except String α} {f : α → Except String β} {b : β}
    (h : (x >>= f) = .ok b) : ∃ a, x = .ok a ∧ f a = .ok b := by
  cases x with
  | error e => cases h
  | ok a => exact ⟨a, rfl, h⟩

theorem put_id (h : put env request encodedBody = .ok response) : response.id = request.id := by
  unfold put at h
  obtain ⟨text, -, h⟩ := bind_eq_ok h
  obtain ⟨body, -, h⟩ := bind_eq_ok h
  obtain ⟨_, -, h⟩ := bind_eq_ok h
  obtain ⟨_, -, h⟩ := bind_eq_ok h
  obtain ⟨diskPath, -, h⟩ := bind_eq_ok h
  obtain ⟨_, -, h⟩ := bind_eq_ok h
  cases h
  rfl

theorem getLocal_id {action : Bytes}
    (h : getLocal env request action = some (.ok response)) : response.id = request.id := by
  unfold getLocal at h
  split at h
  · cases h
  · dsimp only at h
    split at h
    · have h := Option.some.inj h
      obtain ⟨outputId, -, h⟩ := bind_eq_ok h
      obtain ⟨diskPath, -, h⟩ := bind_eq_ok h
      cases h
      rfl
    · cases h

theorem get_id (h : get env request = .ok response) : response.id = request.id := by
  unfold get at h
  dsimp only at h
  split at h
  · rename_i hlocal
    subst h
    exact getLocal_id hlocal
  · obtain ⟨found, -, h⟩ := bind_eq_ok h
    split at h
    · cases h
      rfl
    · obtain ⟨body, -, h⟩ := bind_eq_ok h
      split at h
      · cases h
        rfl
      · obtain ⟨diskPath, -, h⟩ := bind_eq_ok h
        obtain ⟨outputId, -, h⟩ := bind_eq_ok h
        cases h
        rfl

theorem executeRequest_id (env : Surroundings) (request : Request) (encodedBody : Bytes) :
    (executeRequest env request encodedBody).id = request.id := by
  unfold executeRequest
  split
  · rename_i response h
    unfold perform at h
    split at h
    · exact put_id h
    · split at h
      · exact get_id h
      · cases h
  · rfl

end

/-! ## The loop -/

inductive Status where
  | running
  /-- Ended by a close. -/
  | closed
  /-- Ended by the end of the input or by the shutdown signal. -/
  | stopped
  /-- Ended by an error of the reader. -/
  | failed
  deriving DecidableEq

structure Loop where
  input : Input
  closeId : Option Int
  inFlight : List (Request × Bytes)
  output : List Response
  status : Status

namespace Loop

def greeting : Response := { knownCommands := ["get", "put", "close"] }

def initial : Loop := ⟨.initial, none, [], [greeting], .running⟩

/-- The event of the reader. -/
def handle (s : Loop) : Outcome → Loop
  | .error _ => { s with status := .failed }
  | .ok none => { s with inFlight := [], status := .stopped }
  | .ok (some (.invalid error)) => { s with output := s.output ++ [{ err := error }] }
  | .ok (some (.request request encodedBody)) =>
    if request.command = "close" then { s with closeId := some request.id }
    else { s with inFlight := s.inFlight ++ [(request, encodedBody)] }

/-- The future at an index has completed, in some surroundings. -/
abbrev Completion := Nat × Surroundings

/-- The last branch of the `select!`; it drops the call of the reader. -/
def respond (s : Loop) (ready : Option Completion) : Loop :=
  match ready with
  | none => s
  | some (index, env) =>
    match s.inFlight[index]? with
    | none => s
    | some (request, encodedBody) =>
      { s with
        input := { s.input with call := none }
        inFlight := s.inFlight.eraseIdx index
        output := s.output ++ [executeRequest env request encodedBody] }

variable (parse : Bytes → Except String Request)

/-- The branches behind the shutdown signal. -/
def select (s : Loop) (ready : Option Completion) : Loop :=
  match s.closeId with
  | some _ => s.respond ready
  | none =>
    let input := s.input.step parse .poll
    match input.outcomes[s.input.outcomes.length]? with
    | some outcome => handle { s with input } outcome
    | none => respond { s with input } ready

/-- A turn of the loop: whether there is a shutdown signal, and which future is ready. -/
def turn (s : Loop) (shutdown : Bool) (ready : Option Completion) : Loop :=
  match s.status with
  | .running =>
    match s.closeId, s.inFlight with
    | some id, [] => { s with output := s.output ++ [{ id }], status := .closed }
    | _, _ =>
      if shutdown then { s with inFlight := [], status := .stopped } else s.select parse ready
  | _ => s

inductive Action where
  | arrive (bytes : Bytes)
  | close
  | turn (shutdown : Bool) (ready : Option Completion)

def step (s : Loop) : Action → Loop
  | .arrive bytes => { s with input := s.input.step parse (.arrive bytes) }
  | .close => { s with input := s.input.step parse .close }
  | .turn shutdown ready => s.turn parse shutdown ready

def run (actions : List Action) : Loop := actions.foldl (step parse) initial

/-- What arrives on the standard input before it is closed. -/
def arrivals : List Action → Bytes
  | [] => []
  | .arrive bytes :: actions => bytes ++ arrivals actions
  | .close :: _ => []
  | .turn _ _ :: actions => arrivals actions

/-! ## Messages and responses -/

/-- What the reader returns for a message. -/
def read (message : ProtocolMessage) : Outcome := .ok (some message)

def message (pending : Request × Bytes) : ProtocolMessage := .request pending.1 pending.2

/-- A request is answered under its id by what became of it, a line that is no request under
the id 0 by an error. -/
def Answers : ProtocolMessage → Response → Prop
  | .request request encodedBody, response =>
    response.id = request.id ∧ ∃ env, response = executeRequest env request encodedBody
  | .invalid error, response => response = { err := error }

def NoClose (messages : List ProtocolMessage) : Prop :=
  ∀ request encodedBody, .request request encodedBody ∈ messages → request.command ≠ "close"

/-- What the reader has returned behind the messages before the close. -/
inductive Closing : Option Int → List Outcome → Prop where
  | reading : Closing none []
  | closing (request : Request) (encodedBody : Bytes) (h : request.command = "close") :
      Closing (some request.id) [read (.request request encodedBody)]

/-- The messages before the close are those answered and those in flight, each once. -/
structure Accounted (s : Loop) (before : List ProtocolMessage)
    (answered : List (ProtocolMessage × Response)) : Prop where
  outcomes : ∃ tail, s.input.outcomes = before.map read ++ tail ∧ Closing s.closeId tail
  noClose : NoClose before
  perm : (answered.map Prod.fst ++ s.inFlight.map message).Perm before
  output : s.output = greeting :: answered.map Prod.snd
  answers : ∀ pair ∈ answered, Answers pair.1 pair.2

/-- A run has ended by a close: the messages before it are answered, each once, and the
response to the close is the last one. -/
structure Finished (s : Loop) (before : List ProtocolMessage)
    (answered : List (ProtocolMessage × Response)) (request : Request) (encodedBody : Bytes) :
    Prop where
  outcomes : s.input.outcomes = before.map read ++ [read (.request request encodedBody)]
  isClose : request.command = "close"
  noClose : NoClose before
  perm : (answered.map Prod.fst).Perm before
  output : s.output = greeting :: answered.map Prod.snd ++ [{ id := request.id }]
  answers : ∀ pair ∈ answered, Answers pair.1 pair.2

/-- What holds at every point of a run that goes on or has ended by a close. -/
def Ok (s : Loop) : Prop :=
  match s.status with
  | .running => ∃ before answered, s.Accounted before answered
  | .closed => ∃ before answered request encodedBody,
      s.Finished before answered request encodedBody
  | .stopped | .failed => True

variable {parse : Bytes → Except String Request} {s : Loop} {before : List ProtocolMessage}
  {answered : List (ProtocolMessage × Response)}

theorem initial_accounted : initial.Accounted [] [] where
  outcomes := ⟨[], rfl, .reading⟩
  noClose := fun _ _ h => by cases h
  perm := List.Perm.refl _
  output := rfl
  answers := fun _ h => by cases h

theorem Accounted.ok (h : s.Accounted before answered) (hrunning : s.status = .running) :
    s.Ok := by
  rw [Ok, hrunning]
  exact ⟨before, answered, h⟩

/-- The reader's call may be dropped, bytes may arrive: the accounts stay. -/
theorem Accounted.of_input (h : s.Accounted before answered) {input : Input}
    (hinput : input.outcomes = s.input.outcomes) :
    Accounted { s with input } before answered where
  outcomes := by
    obtain ⟨tail, heq, hclosing⟩ := h.outcomes
    exact ⟨tail, hinput.trans heq, hclosing⟩
  noClose := h.noClose
  perm := h.perm
  output := h.output
  answers := h.answers

/-- Before a close, the reader has returned the messages and nothing else. -/
theorem Accounted.outcomes_eq (h : s.Accounted before answered) (hclose : s.closeId = none) :
    s.input.outcomes = before.map read := by
  obtain ⟨tail, heq, hclosing⟩ := h.outcomes
  rw [hclose] at hclosing
  cases hclosing
  rw [heq, List.append_nil]

section

variable (h : s.Accounted before answered) (hclose : s.closeId = none) {input : Input}

include h hclose

/-- A line that is no request is answered at once. -/
theorem Accounted.invalid {error : String}
    (hinput : input.outcomes = s.input.outcomes ++ [read (.invalid error)]) :
    Accounted { s with input, output := s.output ++ [{ err := error }] }
      (before ++ [.invalid error]) (answered ++ [(.invalid error, { err := error })]) where
  outcomes := by
    refine ⟨[], ?_, ?_⟩
    · rw [List.map_append, List.append_nil, ← h.outcomes_eq hclose]
      exact hinput
    · show Closing s.closeId []
      rw [hclose]
      exact .reading
  noClose := by
    intro request encodedBody hmem
    rcases List.mem_append.mp hmem with hmem | hmem
    · exact h.noClose request encodedBody hmem
    · cases List.mem_singleton.mp hmem
  perm := by
    rw [List.map_append, List.append_assoc]
    refine (List.perm_append_comm.append_left _).trans ?_
    rw [← List.append_assoc]
    exact h.perm.append_right _
  output := by
    show s.output ++ [_] = _
    rw [h.output, List.map_append]
    rfl
  answers := by
    intro pair hpair
    rcases List.mem_append.mp hpair with hpair | hpair
    · exact h.answers pair hpair
    · rw [List.mem_singleton.mp hpair]
      exact rfl

/-- Another request goes into flight. -/
theorem Accounted.flight {request : Request} {encodedBody : Bytes}
    (hne : request.command ≠ "close")
    (hinput : input.outcomes = s.input.outcomes ++ [read (.request request encodedBody)]) :
    Accounted { s with input, inFlight := s.inFlight ++ [(request, encodedBody)] }
      (before ++ [.request request encodedBody]) answered where
  outcomes := by
    refine ⟨[], ?_, ?_⟩
    · rw [List.map_append, List.append_nil, ← h.outcomes_eq hclose]
      exact hinput
    · show Closing s.closeId []
      rw [hclose]
      exact .reading
  noClose := by
    intro request' encodedBody' hmem
    rcases List.mem_append.mp hmem with hmem | hmem
    · exact h.noClose request' encodedBody' hmem
    · cases List.mem_singleton.mp hmem
      exact hne
  perm := by
    show (_ ++ (s.inFlight ++ [_]).map message).Perm _
    rw [List.map_append, ← List.append_assoc]
    exact h.perm.append_right _
  output := h.output
  answers := h.answers

/-- A close is noted; it is not in flight. -/
theorem Accounted.close {request : Request} {encodedBody : Bytes}
    (hcommand : request.command = "close")
    (hinput : input.outcomes = s.input.outcomes ++ [read (.request request encodedBody)]) :
    Accounted { s with input, closeId := some request.id } before answered where
  outcomes := by
    refine ⟨[read (.request request encodedBody)], ?_, .closing request encodedBody hcommand⟩
    rw [← h.outcomes_eq hclose]
    exact hinput
  noClose := h.noClose
  perm := h.perm
  output := h.output
  answers := h.answers

theorem Accounted.handle (hrunning : s.status = .running) {outcome : Outcome}
    (hinput : input.outcomes = s.input.outcomes ++ [outcome]) :
    (Loop.handle { s with input } outcome).Ok := by
  match outcome with
  | .error _ => exact trivial
  | .ok none => exact trivial
  | .ok (some (.invalid error)) => exact (h.invalid hclose hinput).ok hrunning
  | .ok (some (.request request encodedBody)) =>
    unfold Loop.handle
    dsimp only
    split
    · rename_i hcommand
      exact (h.close hclose hcommand hinput).ok hrunning
    · rename_i hcommand
      exact (h.flight hclose hcommand hinput).ok hrunning

end

/-- A future that completes moves its request from those in flight to those answered. -/
theorem Accounted.respond (h : s.Accounted before answered) (hrunning : s.status = .running)
    (ready : Option Completion) : (s.respond ready).Ok := by
  unfold Loop.respond
  split
  · exact h.ok hrunning
  · rename_i index env
    split
    · exact h.ok hrunning
    · rename_i request encodedBody hget
      obtain ⟨hlt, hrequest⟩ := List.getElem?_eq_some_iff.mp hget
      have hperm : (message (request, encodedBody) ::
          (s.inFlight.eraseIdx index).map message).Perm (s.inFlight.map message) := by
        rw [← hrequest, ← List.map_cons]
        exact (List.getElem_cons_eraseIdx_perm hlt).map message
      have haccounted : Accounted
          { s with
            input := { s.input with call := none }
            inFlight := s.inFlight.eraseIdx index
            output := s.output ++ [executeRequest env request encodedBody] }
          before (answered ++
            [(.request request encodedBody, executeRequest env request encodedBody)]) := by
        refine ⟨h.outcomes, h.noClose, ?_, ?_, ?_⟩
        · rw [List.map_append, List.append_assoc]
          exact (hperm.append_left _).trans h.perm
        · show s.output ++ [_] = _
          rw [h.output, List.map_append]
          rfl
        · intro pair hpair
          rcases List.mem_append.mp hpair with hpair | hpair
          · exact h.answers pair hpair
          · rw [List.mem_singleton.mp hpair]
            exact ⟨executeRequest_id env request encodedBody, env, rfl⟩
      exact haccounted.ok hrunning

/-- A poll of the reader returns a message or is pending. -/
theorem poll_cases (parse : Bytes → Except String Request) (input : Input) :
    ((input.step parse .poll).outcomes = input.outcomes ∧
      (input.step parse .poll).outcomes[input.outcomes.length]? = none) ∨
    ∃ outcome, (input.step parse .poll).outcomes = input.outcomes ++ [outcome] ∧
      (input.step parse .poll).outcomes[input.outcomes.length]? = some outcome := by
  rcases Input.step_poll_cases parse input with hsame | ⟨outcome, hgrown⟩
  · refine .inl ⟨hsame, ?_⟩
    rw [hsame, List.getElem?_eq_none (Nat.le_refl _)]
  · refine .inr ⟨outcome, hgrown, ?_⟩
    rw [hgrown, List.getElem?_append_right (Nat.le_refl _), Nat.sub_self]
    rfl

theorem Accounted.select (h : s.Accounted before answered) (hrunning : s.status = .running)
    (ready : Option Completion) : (s.select parse ready).Ok := by
  unfold Loop.select
  split
  · exact h.respond hrunning ready
  · rename_i hclose
    rcases poll_cases parse s.input with ⟨hsame, hnone⟩ | ⟨outcome, hgrown, hsome⟩
    · dsimp only
      rw [hnone]
      exact (h.of_input hsame).respond hrunning ready
    · dsimp only
      rw [hsome]
      exact h.handle hclose hrunning hgrown

/-- When nothing is in flight and there was a close, the loop ends. -/
theorem Accounted.finish (h : s.Accounted before answered) {id : Int}
    (hclose : s.closeId = some id) (hflight : s.inFlight = []) :
    Ok { s with output := s.output ++ [{ id }], status := .closed } := by
  obtain ⟨tail, heq, hclosing⟩ := h.outcomes
  rw [hclose] at hclosing
  cases hclosing with
  | closing request encodedBody hcommand =>
    refine ⟨before, answered, request, encodedBody, heq, hcommand, h.noClose, ?_, ?_, h.answers⟩
    · have hperm := h.perm
      rwa [hflight, List.map_nil, List.append_nil] at hperm
    · show s.output ++ [_] = _
      rw [h.output]

theorem turn_ok (hok : s.Ok) (shutdown : Bool) (ready : Option Completion) :
    (s.turn parse shutdown ready).Ok := by
  unfold turn
  cases hstatus : s.status with
  | running =>
    rw [Ok, hstatus] at hok
    obtain ⟨before, answered, h⟩ := hok
    dsimp only
    split
    · rename_i id hclose hflight
      exact h.finish hclose hflight
    · split
      · exact trivial
      · exact h.select hstatus ready
  | closed => exact hok
  | stopped => exact hok
  | failed => exact hok

/-- The stream and the call of the reader are no part of the accounts. -/
theorem ok_of_input (hok : s.Ok) {input : Input} (hinput : input.outcomes = s.input.outcomes) :
    Ok { s with input } := by
  obtain ⟨before, closeId, inFlight, output, status⟩ := s
  cases status with
  | running =>
    obtain ⟨before, answered, h⟩ := hok
    exact ⟨before, answered, h.of_input hinput⟩
  | closed =>
    obtain ⟨before, answered, request, encodedBody, h⟩ := hok
    exact ⟨before, answered, request, encodedBody, hinput.trans h.outcomes, h.isClose,
      h.noClose, h.perm, h.output, h.answers⟩
  | stopped => exact trivial
  | failed => exact trivial

theorem step_ok (hok : s.Ok) (action : Action) : (s.step parse action).Ok := by
  cases action with
  | arrive bytes =>
    refine ok_of_input hok ?_
    unfold Input.step
    dsimp only
    split <;> rfl
  | close => exact ok_of_input hok rfl
  | turn shutdown ready => exact turn_ok hok shutdown ready

theorem run_ok (parse : Bytes → Except String Request) (actions : List Action) :
    (run parse actions).Ok := by
  have hall : ∀ s : Loop, s.Ok → (actions.foldl (step parse) s).Ok := by
    induction actions with
    | nil => exact fun _ hok => hok
    | cons action actions ih => exact fun s hok => ih _ (step_ok hok action)
  exact hall initial (initial_accounted.ok rfl)

/-! ## The stream -/

/-- What the loop does to the reader is a schedule of it. -/
theorem step_input (parse : Bytes → Except String Request) (s : Loop) (action : Action) :
    ∃ events, (s.step parse action).input = s.input.run parse events ∧
      ∀ later laterActions, Input.arrivals later = arrivals laterActions →
        Input.arrivals (events ++ later) = arrivals (action :: laterActions) := by
  cases action with
  | arrive bytes => exact ⟨[.arrive bytes], rfl, fun _ _ h => congrArg (bytes ++ ·) h⟩
  | close => exact ⟨[.close], rfl, fun _ _ _ => rfl⟩
  | turn shutdown ready =>
    -- no poll and no drop, or one of them, or both
    have hrespond : ∀ s : Loop, (s.respond ready).input = s.input ∨
        (s.respond ready).input = s.input.step parse .drop := by
      intro s
      unfold respond
      split
      · exact .inl rfl
      · split
        · exact .inl rfl
        · exact .inr rfl
    have hhandle : ∀ (s : Loop) (outcome : Outcome), (s.handle outcome).input = s.input := by
      intro s outcome
      unfold handle
      split
      · rfl
      · rfl
      · rfl
      · split <;> rfl
    show ∃ events, (s.turn parse shutdown ready).input = _ ∧ _
    unfold turn
    split
    · split
      · exact ⟨[], rfl, fun _ _ h => h⟩
      · split
        · exact ⟨[], rfl, fun _ _ h => h⟩
        · unfold select
          split
          · rcases hrespond s with heq | heq
            · exact ⟨[], heq, fun _ _ h => h⟩
            · exact ⟨[.drop], heq, fun _ _ h => h⟩
          · dsimp only
            split
            · exact ⟨[.poll], hhandle _ _, fun _ _ h => h⟩
            · rcases hrespond { s with input := s.input.step parse .poll } with heq | heq
              · exact ⟨[.poll], heq, fun _ _ h => h⟩
              · exact ⟨[.poll, .drop], heq, fun _ _ h => h⟩
    · exact ⟨[], rfl, fun _ _ h => h⟩

theorem run_input (parse : Bytes → Except String Request) (actions : List Action) :
    ∃ schedule, (run parse actions).input = Input.run parse .initial schedule ∧
      Input.arrivals schedule = arrivals actions := by
  have hall : ∀ s : Loop, ∃ schedule,
      (actions.foldl (step parse) s).input = s.input.run parse schedule ∧
        Input.arrivals schedule = arrivals actions := by
    induction actions with
    | nil => exact fun s => ⟨[], rfl, rfl⟩
    | cons action actions ih =>
      intro s
      obtain ⟨events, hevents, harrivals⟩ := step_input parse s action
      obtain ⟨schedule, hschedule, hlater⟩ := ih (s.step parse action)
      refine ⟨events ++ schedule, ?_, harrivals schedule actions hlater⟩
      rw [Input.run_append, ← hevents]
      exact hschedule
  exact hall initial

/-- Only the close, the shutdown signal and the reader end the loop. -/
theorem turn_ends {ready : Option Completion} (hrunning : s.status = .running)
    (hends : (s.turn parse false ready).status ≠ .running) :
    (s.turn parse false ready).status = .closed ∨
      (s.turn parse false ready).input.finished = true := by
  -- A response, whatever became of its request, does not end the loop.
  have hrespond : ∀ s : Loop, (s.respond ready).status = s.status := by
    intro s
    unfold respond
    split
    · rfl
    · split <;> rfl
  unfold turn at hends ⊢
  rw [hrunning] at hends ⊢
  dsimp only at hends ⊢
  split at hends
  · rename_i hclose hflight
    exact .inl rfl
  · rw [if_neg Bool.false_ne_true] at hends ⊢
    unfold select at hends ⊢
    split at hends
    · exact absurd ((hrespond s).trans hrunning) hends
    · rename_i hclose
      rcases poll_cases parse s.input with ⟨-, hnone⟩ | ⟨outcome, hgrown, hsome⟩
      · dsimp only at hends
        rw [hnone] at hends
        exact absurd ((hrespond { s with input := s.input.step parse .poll }).trans hrunning) hends
      · dsimp only at hends ⊢
        rw [hsome] at hends ⊢
        refine .inr ?_
        have hlast : ∀ s' : Loop, s'.input = s.input.step parse .poll →
            Input.isLast outcome = true → s'.input.finished = true := by
          intro s' hinput hlast
          rw [hinput, Input.finished, hgrown, List.any_append]
          simp [hlast]
        cases outcome with
        | error _ => exact hlast _ rfl rfl
        | ok found =>
          cases found with
          | none => exact hlast _ rfl rfl
          | some message =>
            cases message with
            | invalid error => exact absurd hrunning hends
            | request request encodedBody =>
              unfold handle at hends
              dsimp only at hends
              split at hends
              · exact absurd hrunning hends
              · exact absurd hrunning hends

/-- A run that ends by a close: behind the greeting, every message before the close has one
response, a request under its id and whatever became of it; the response to the close is the
last; the messages are the first of the stream and nothing is read behind the close. And no
turn ends the loop but for the close, the shutdown signal and the end of the reader. -/
theorem one_response_each (parse : Bytes → Except String Request) (actions : List Action)
    (hclosed : (run parse actions).status = .closed) :
    (∃ (before : List ProtocolMessage) (answered : List (ProtocolMessage × Response))
        (request : Request) (encodedBody : Bytes),
      (run parse actions).input.outcomes =
        before.map read ++ [read (.request request encodedBody)] ∧
      request.command = "close" ∧ NoClose before ∧
      (answered.map Prod.fst).Perm before ∧
      (run parse actions).output =
        greeting :: answered.map Prod.snd ++ [{ id := request.id }] ∧
      (∀ pair ∈ answered, Answers pair.1 pair.2) ∧
      ∀ later, ((run parse actions).input.eof = true → later = []) →
        before.map read ++ [read (.request request encodedBody)] <+:
          (Input.undisturbed parse (arrivals actions ++ later)).outcomes) ∧
    (∀ earlier ready, (run parse earlier).status = .running →
      ((run parse earlier).turn parse false ready).status ≠ .running →
        ((run parse earlier).turn parse false ready).status = .closed ∨
          ((run parse earlier).turn parse false ready).input.finished = true) := by
  refine ⟨?_, fun earlier ready hrunning hends => turn_ends hrunning hends⟩
  have hok := run_ok parse actions
  rw [Ok, hclosed] at hok
  obtain ⟨before, answered, request, encodedBody, h⟩ := hok
  refine ⟨before, answered, request, encodedBody, h.outcomes, h.isClose, h.noClose, h.perm,
    h.output, h.answers, ?_⟩
  intro later hlater
  obtain ⟨schedule, hschedule, harrivals⟩ := run_input parse actions
  rw [hschedule] at hlater
  -- What was read is the beginning of the undisturbed reading, whatever comes later.
  have hbeginning := Input.outcomes_beginning parse schedule hlater
  rw [← hschedule, harrivals, h.outcomes] at hbeginning
  exact hbeginning

/-! ### A line that is no request, a get, a close -/

def ascii (text : String) : Bytes := text.toList.map fun c => UInt8.ofNat c.toNat

def getLine : Bytes := ascii "\x7b\"ID\":1,\"Command\":\"get\",\"ActionID\":\"AQ==\"\x7d\n"

def closeLine : Bytes := ascii "\x7b\"ID\":2,\"Command\":\"close\"\x7d\n"

/-- `serde_json` on the lines of the sample. -/
def sampleParse (line : Bytes) : Except String Request :=
  if line = getLine then .ok ⟨1, "get", [1], [], 0⟩
  else if line = closeLine then .ok ⟨2, "close", [], [], 0⟩
  else .error "expected value at line 1 column 1"

/-- The shard does not have the action. -/
def sampleSurroundings : Surroundings where
  sha256 _ := ⟨List.replicate 32 0, length_zeros⟩
  jsonString _ := .error "expected value at line 1 column 1"
  base64Decode _ := .ok []
  hexError _ := "Invalid string length"
  writeDiskFile _ _ := .error "No such file or directory (os error 2)"
  sendPut _ _ := .error "error sending request"
  manifestEntry _ := none
  present := false
  downloading := false
  presentThen := false
  canonicalPath _ := .error "No such file or directory (os error 2)"
  sendGet _ := .ok none

/-- The get completes after the close was read, while the line of the close came in two
pieces. -/
def sampleActions : List Action :=
  [.arrive (ascii "x\n" ++ getLine ++ closeLine.take 5), .turn false none, .turn false none,
    .turn false none, .arrive (closeLine.drop 5), .turn false none,
    .turn false (some (0, sampleSurroundings)), .turn false none]

theorem sample_responses :
    ∃ (before : List ProtocolMessage) (answered : List (ProtocolMessage × Response)),
      (answered.map Prod.fst).Perm before ∧
      (run sampleParse sampleActions).output =
        greeting :: answered.map Prod.snd ++ [{ id := 2 }] := by
  obtain ⟨⟨before, answered, request, encodedBody, houtcomes, -, -, hperm, houtput, -, -⟩, -⟩ :=
    one_response_each sampleParse sampleActions (by decide)
  refine ⟨before, answered, hperm, ?_⟩
  have hlast : (run sampleParse sampleActions).output.getLast? = some { id := 2 } := by decide
  rw [houtput, List.getLast?_append, List.getLast?_singleton, Option.some_or] at hlast
  rw [houtput, Option.some.inj hlast]

end Loop

end Flywheel.Cacheprog
