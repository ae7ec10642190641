import Flywheel.Artifact
import Mathlib.Data.List.Infix

/-!
# The protocol reader (`cacheprog/mod.rs`, `ProtocolReader`)

The helper reads requests line by line; the body of a put is a line of its own. The protocol
loop drops a pending call of `next_message` whenever a request in flight completes and calls it
again later. What survives is the reader: the bytes of the line read so far and the put that
waits for its body. `read_until` has appended to the line whatever it consumed.

A call is polled against the bytes that have arrived. What it returns over a whole stream is
also the output of an automaton that is fed the bytes one at a time (`expected`). The state of
that automaton is just what survives a drop, and a poll that ends pending only moves bytes into
it: so neither the chunks nor the drops can be seen in the results.

- `poll`: one poll of `next_message`.
- `Input.step`: bytes arrive, the stream ends, a call is polled, a call is dropped.
- `cancellation_safe`: every schedule returns what the undisturbed reader returns.
-/

set_option autoImplicit false

namespace Flywheel.Cacheprog

/-! ## Messages -/

structure Request where
  id : Int
  command : String
  actionId : Bytes
  outputId : Bytes
  bodySize : UInt64
  deriving DecidableEq

inductive ProtocolMessage where
  | request (request : Request) (encodedBody : Bytes)
  | invalid (error : String)
  deriving DecidableEq

/-- What a call of `next_message` returns; `none` is the end of the input. -/
abbrev Outcome := Except String (Option ProtocolMessage)

/-- `u8::is_ascii_whitespace`. -/
def isAsciiWhitespace (b : UInt8) : Bool := b == 32 || b == 9 || b == 10 || b == 12 || b == 13

def isBlank (line : Bytes) : Bool := line.all isAsciiWhitespace

/-! ## Reading a line -/

/-- The local variables of `read_protocol_line` while `read_until` waits. -/
structure Reading where
  existing : Nat
  read : Nat

inductive LineRead where
  /-- All that has arrived is in the line, and there may be more. -/
  | pending (reading : Reading) (line : Bytes)
  /-- Whether there is a line, and what is left behind it. -/
  | done (found : Bool) (line rest : Bytes)

/-- `read_protocol_line` over the bytes that have arrived, with the loop of `read_until` inside:
it appends a byte at a time and stops behind a newline or at the end of the input. -/
def readProtocolLine (eof : Bool) : Reading → Bytes → Bytes → LineRead
  | reading, line, [] =>
    if eof then
      if reading.read = 0 ∧ reading.existing = 0 then .done false line []
      else if !isBlank line then .done true line []
      -- the line is cleared, and the next `read_until` reads nothing
      else .done false [] []
    else .pending reading line
  | reading, line, b :: rest =>
    let line := line ++ [b]
    if b = 10 then
      if !isBlank line then .done true line rest
      else readProtocolLine eof ⟨0, 0⟩ [] rest
    else readProtocolLine eof { reading with read := reading.read + 1 } line rest

/-! ## Reading a message -/

/-- What survives when a call is dropped. -/
structure ProtocolReader where
  line : Bytes
  pendingPut : Option Request

inductive Poll where
  | pending (reading : Reading) (reader : ProtocolReader)
  | ready (outcome : Outcome) (reader : ProtocolReader) (rest : Bytes)

def bodyMissing : String := "cacheprog put body is missing"

/-- A put with a body; its next line is the body. -/
def expectsBody (request : Request) : Bool := request.command == "put" && 0 < request.bodySize

/-- The turn of the loop with a put pending. -/
def pollBody (eof : Bool) (reading : Reading) (line : Bytes) (request : Request) (arrived : Bytes) :
    Poll :=
  match readProtocolLine eof reading line arrived with
  | .pending reading line => .pending reading ⟨line, some request⟩
  | .done false line rest => .ready (.error bodyMissing) ⟨line, some request⟩ rest
  | .done true line rest => .ready (.ok (some (.request request line))) ⟨[], none⟩ rest

/-- A poll of `next_message` that goes on where `read_until` waits. `parse` is
`serde_json::from_slice`. -/
def poll (parse : Bytes → Except String Request) (eof : Bool) (reading : Reading)
    (reader : ProtocolReader) (arrived : Bytes) : Poll :=
  match reader.pendingPut with
  | some request => pollBody eof reading reader.line request arrived
  | none =>
    match readProtocolLine eof reading reader.line arrived with
    | .pending reading line => .pending reading ⟨line, none⟩
    | .done false line rest => .ready (.ok none) ⟨line, none⟩ rest
    | .done true line rest =>
      match parse line with
      | .error error => .ready (.ok (some (.invalid error))) ⟨[], none⟩ rest
      | .ok request =>
        if expectsBody request then pollBody eof ⟨0, 0⟩ [] request rest
        else .ready (.ok (some (.request request []))) ⟨[], none⟩ rest

/-! ## Calls over time -/

/-- The reader with its stream, the call that is pending, and what calls have returned. -/
structure Input where
  reader : ProtocolReader
  arrived : Bytes
  eof : Bool
  call : Option Reading
  outcomes : List Outcome

namespace Input

def initial : Input := ⟨⟨[], none⟩, [], false, none, []⟩

/-- The end of the input or an error: the loop calls no more. -/
def isLast : Outcome → Bool
  | .ok (some _) => false
  | _ => true

def finished (s : Input) : Bool := s.outcomes.any isLast

inductive Event where
  | arrive (bytes : Bytes)
  | close
  | poll
  | drop

variable (parse : Bytes → Except String Request)

/-- A new call starts with the line as it was left. -/
def step (s : Input) : Event → Input
  | .arrive bytes => if s.eof then s else { s with arrived := s.arrived ++ bytes }
  | .close => { s with eof := true }
  | .poll =>
    if s.finished then s
    else
      match Cacheprog.poll parse s.eof (s.call.getD ⟨s.reader.line.length, 0⟩) s.reader
          s.arrived with
      | .pending reading reader => { s with reader, arrived := [], call := some reading }
      | .ready outcome reader rest =>
        { s with reader, arrived := rest, call := none, outcomes := s.outcomes ++ [outcome] }
  | .drop => { s with call := none }

def run (s : Input) (events : List Event) : Input := events.foldl (step parse) s

/-- What arrives before the stream is closed. -/
def arrivals : List Event → Bytes
  | [] => []
  | .arrive bytes :: events => bytes ++ arrivals events
  | .close :: _ => []
  | _ :: events => arrivals events

/-- The whole stream at hand, and no call dropped. -/
def undisturbed (stream : Bytes) : Input :=
  run parse initial (.arrive stream :: .close :: List.replicate (stream.length + 1) .poll)

end Input

namespace Input

/-- A poll adds an outcome or none. -/
theorem step_poll_cases (parse : Bytes → Except String Request) (s : Input) :
    (s.step parse .poll).outcomes = s.outcomes ∨
      ∃ outcome, (s.step parse .poll).outcomes = s.outcomes ++ [outcome] := by
  unfold step
  dsimp only
  split
  · exact .inl rfl
  · split
    · exact .inl rfl
    · exact .inr ⟨_, rfl⟩

end Input

/-! ## The automaton -/

section

variable (parse : Bytes → Except String Request)

/-- What a line that is not blank does: the message it completes and the put it leaves. -/
def acceptLine : Option Request → Bytes → Option ProtocolMessage × Option Request
  | some request, line => (some (.request request line), none)
  | none, line =>
    match parse line with
    | .error error => (some (.invalid error), none)
    | .ok request =>
      if expectsBody request then (none, some request) else (some (.request request []), none)

/-- What is returned at the end of the input. -/
def lastOutcome : Option Request → Outcome
  | none => .ok none
  | some _ => .error bodyMissing

def emitted (message : Option ProtocolMessage) : List Outcome :=
  message.toList.map fun message => .ok (some message)

/-- The outcomes still to come, from what survives a drop and the bytes that are still to be
read. -/
def expected : Option Request → Bytes → Bytes → List Outcome
  | pendingPut, line, [] =>
    if isBlank line then [lastOutcome pendingPut]
    else
      let (message, pendingPut) := acceptLine parse pendingPut line
      emitted message ++ [lastOutcome pendingPut]
  | pendingPut, line, b :: rest =>
    let line := line ++ [b]
    if b = 10 then
      if isBlank line then expected pendingPut [] rest
      else
        let (message, pendingPut) := acceptLine parse pendingPut line
        emitted message ++ expected pendingPut [] rest
    else expected pendingPut line rest

theorem expected_nil (pendingPut : Option Request) :
    expected parse pendingPut [] [] = [lastOutcome pendingPut] := rfl

theorem length_emitted (message : Option ProtocolMessage) : (emitted message).length ≤ 1 := by
  cases message with
  | none => exact Nat.zero_le 1
  | some message => exact Nat.le_refl 1

/-- Every message takes a byte. -/
theorem length_expected (pendingPut : Option Request) (line stream : Bytes) :
    (expected parse pendingPut line stream).length ≤
      stream.length + 1 + if isBlank line then 0 else 1 := by
  induction stream generalizing pendingPut line with
  | nil =>
    rw [expected]
    split
    · exact Nat.le_refl 1
    · have hone := length_emitted (acceptLine parse pendingPut line).1
      rw [List.length_append, List.length_singleton, List.length_nil]
      omega
  | cons b rest ih =>
    rw [expected]
    dsimp only
    split
    · split
      · have hrest : (expected parse pendingPut [] rest).length ≤ rest.length + 1 :=
          ih pendingPut []
        rw [List.length_cons]
        omega
      · have hone := length_emitted (acceptLine parse pendingPut (line ++ [b])).1
        have hrest : (expected parse (acceptLine parse pendingPut (line ++ [b])).2 []
            rest).length ≤ rest.length + 1 := ih _ []
        rw [List.length_append, List.length_cons]
        split
        · omega
        · omega
    · have hrest := ih pendingPut (line ++ [b])
      rw [List.length_cons]
      split at hrest
      · omega
      · omega

end

/-! ## Polls and the automaton -/

/-- The variables of `read_protocol_line` add up to the length of the line, so that it sees the
end of the input when the line is empty. -/
def Reading.Fits (reading : Reading) (line : Bytes) : Prop :=
  reading.existing + reading.read = line.length

section

variable {parse : Bytes → Except String Request} {eof : Bool} {future : Bytes}

/-- What reading a line means to the automaton, whatever comes later. -/
def LineRead.Explains (parse : Bytes → Except String Request) (eof : Bool) (future : Bytes)
    (before : Option Request → List Outcome) : LineRead → Prop
  | .pending reading line =>
    eof = false ∧ reading.Fits line ∧
      ∀ pendingPut, before pendingPut = expected parse pendingPut line future
  | .done false _ rest =>
    eof = true ∧ rest = [] ∧ ∀ pendingPut, before pendingPut = [lastOutcome pendingPut]
  | .done true line rest =>
    ∀ pendingPut, before pendingPut = emitted (acceptLine parse pendingPut line).1 ++
      expected parse (acceptLine parse pendingPut line).2 [] (rest ++ future)

theorem readProtocolLine_explains (parse : Bytes → Except String Request)
    (hfuture : eof = true → future = []) {reading : Reading} {line : Bytes}
    (hfits : reading.Fits line) (arrived : Bytes) :
    (readProtocolLine eof reading line arrived).Explains parse eof future fun pendingPut =>
      expected parse pendingPut line (arrived ++ future) := by
  -- Byte by byte; `expected` and the reader take a byte in the same way.
  induction arrived generalizing reading line with
  | nil =>
    rw [readProtocolLine]
    split
    · rename_i heof
      obtain rfl := hfuture heof
      split
      · rename_i hzero
        -- Nothing was read and nothing was there: the end of the stream.
        have hline : line = [] := List.eq_nil_of_length_eq_zero (by rw [← hfits]; omega)
        subst hline
        exact ⟨heof, rfl, fun pendingPut => expected_nil parse pendingPut⟩
      · split
        · rename_i hblank
          -- A last line without a newline.
          intro pendingPut
          have hblank : ¬ isBlank line = true := by simpa using hblank
          show expected parse pendingPut line [] = _
          rw [expected, if_neg hblank]
          rfl
        · rename_i hblank
          refine ⟨heof, rfl, fun pendingPut => ?_⟩
          have hblank : isBlank line = true := by simpa using hblank
          show expected parse pendingPut line [] = _
          rw [expected, if_pos hblank]
    · rename_i heof
      -- The bytes read so far stay in the line, whether the call goes on or is dropped.
      exact ⟨by simpa using heof, hfits, fun _ => rfl⟩
  | cons b arrived ih =>
    rw [readProtocolLine]
    split
    · rename_i hb
      split
      · rename_i hblank
        intro pendingPut
        have hblank : ¬ isBlank (line ++ [b]) = true := by simpa using hblank
        show expected parse pendingPut line (b :: (arrived ++ future)) = _
        rw [expected]
        dsimp only
        rw [if_pos hb, if_neg hblank]
      · rename_i hblank
        have hblank : isBlank (line ++ [b]) = true := by simpa using hblank
        -- A blank line is cleared and reading goes on.
        have hskip : (fun pendingPut => expected parse pendingPut line (b :: arrived ++ future)) =
            fun pendingPut => expected parse pendingPut [] (arrived ++ future) := by
          funext pendingPut
          rw [List.cons_append, expected]
          dsimp only
          rw [if_pos hb, if_pos hblank]
        rw [hskip]
        exact ih rfl
    · rename_i hb
      have hmove : (fun pendingPut => expected parse pendingPut line (b :: arrived ++ future)) =
          fun pendingPut => expected parse pendingPut (line ++ [b]) (arrived ++ future) := by
        funext pendingPut
        rw [List.cons_append, expected]
        dsimp only
        rw [if_neg hb]
      rw [hmove]
      refine ih ?_
      show reading.existing + (reading.read + 1) = (line ++ [b]).length
      rw [List.length_append, List.length_singleton, ← hfits]
      omega

/-- What a poll means to the automaton. -/
def Poll.Explains (parse : Bytes → Except String Request) (eof : Bool) (future : Bytes)
    (before : List Outcome) : Poll → Prop
  | .pending reading reader =>
    eof = false ∧ reading.Fits reader.line ∧
      before = expected parse reader.pendingPut reader.line future
  | .ready outcome reader rest =>
    before = outcome :: if Input.isLast outcome then []
      else expected parse reader.pendingPut reader.line (rest ++ future)

theorem pollBody_explains (hfuture : eof = true → future = []) {reading : Reading} {line : Bytes}
    (hfits : reading.Fits line) (request : Request) (arrived : Bytes) :
    (pollBody eof reading line request arrived).Explains parse eof future
      (expected parse (some request) line (arrived ++ future)) := by
  have hline := readProtocolLine_explains parse hfuture hfits arrived
  unfold pollBody
  cases hread : readProtocolLine eof reading line arrived with
  | pending reading line =>
    rw [hread] at hline
    obtain ⟨heof, hfits, hbefore⟩ := hline
    exact ⟨heof, hfits, hbefore (some request)⟩
  | done found line rest =>
    rw [hread] at hline
    cases found with
    | false =>
      obtain ⟨-, -, hbefore⟩ := hline
      exact hbefore (some request)
    | true => exact hline (some request)

theorem poll_explains (parse : Bytes → Except String Request) (hfuture : eof = true → future = [])
    {reading : Reading} {reader : ProtocolReader} (hfits : reading.Fits reader.line)
    (arrived : Bytes) : (poll parse eof reading reader arrived).Explains parse eof future
      (expected parse reader.pendingPut reader.line (arrived ++ future)) := by
  obtain ⟨line, pendingPut⟩ := reader
  unfold poll
  cases pendingPut with
  | some request => exact pollBody_explains hfuture hfits request arrived
  | none =>
    have hline := readProtocolLine_explains parse hfuture hfits arrived
    dsimp only
    cases hread : readProtocolLine eof reading line arrived with
    | pending reading line =>
      rw [hread] at hline
      obtain ⟨heof, hfits, hbefore⟩ := hline
      exact ⟨heof, hfits, hbefore none⟩
    | done found line rest =>
      rw [hread] at hline
      cases found with
      | false =>
        obtain ⟨-, -, hbefore⟩ := hline
        exact hbefore none
      | true =>
        have hbefore := hline none
        dsimp only at hbefore ⊢
        rw [hbefore, acceptLine]
        cases hparse : parse line with
        | error error => rfl
        | ok request =>
          dsimp only
          split
          · -- the put waits for its body, in what has arrived behind it
            exact pollBody_explains hfuture (show Reading.Fits ⟨0, 0⟩ [] from rfl) request rest
          · rfl

end

/-! ## Whole schedules -/

namespace Input

variable (parse : Bytes → Except String Request)

/-- A pending call has read what is in the line. -/
def Ok (s : Input) : Prop := ∀ reading, s.call = some reading → reading.Fits s.reader.line

/-- What calls will still return if `future` arrives. -/
def remaining (s : Input) (future : Bytes) : List Outcome :=
  if s.finished then []
  else expected parse s.reader.pendingPut s.reader.line (s.arrived ++ future)

variable {parse} {s : Input} {future : Bytes}

theorem Ok.fits (hok : s.Ok) : (s.call.getD ⟨s.reader.line.length, 0⟩).Fits s.reader.line := by
  cases hcall : s.call with
  | none => rfl
  | some reading => exact hok reading hcall

/-- A poll takes its outcome, if it has one, off what remains; at the end of the input it has
one. -/
theorem step_poll (parse : Bytes → Except String Request) (future : Bytes) (hok : s.Ok)
    (hfuture : s.eof = true → future = []) :
    (step parse s .poll).Ok ∧ (step parse s .poll).eof = s.eof ∧
      s.outcomes ++ s.remaining parse future =
        (step parse s .poll).outcomes ++ (step parse s .poll).remaining parse future ∧
      (s.eof = true → s.finished = false →
        (step parse s .poll).outcomes.length = s.outcomes.length + 1) := by
  have hexplains := poll_explains parse hfuture hok.fits s.arrived
  unfold step
  dsimp only
  cases hfinished : s.finished with
  | true =>
    -- Behind the last outcome nothing is polled.
    rw [if_pos rfl]
    exact ⟨hok, rfl, rfl, fun _ h => absurd h Bool.true_eq_false.mp⟩
  | false =>
    rw [if_neg Bool.false_ne_true]
    have hremaining : s.remaining parse future =
        expected parse s.reader.pendingPut s.reader.line (s.arrived ++ future) := by
      rw [remaining, hfinished, if_neg Bool.false_ne_true]
    rw [← hremaining] at hexplains
    cases hpoll : poll parse s.eof (s.call.getD ⟨s.reader.line.length, 0⟩) s.reader s.arrived with
    | pending reading reader =>
      rw [hpoll] at hexplains
      obtain ⟨heof, hfits, hbefore⟩ := hexplains
      -- A pending poll has eaten the bytes: what remains is the same with them in the line.
      refine ⟨?_, rfl, ?_, ?_⟩
      · intro waiting hwaiting
        cases hwaiting
        exact hfits
      · show _ = s.outcomes ++ remaining parse _ future
        rw [hbefore, remaining]
        have hsame : finished { s with reader, arrived := [], call := some reading } = false :=
          hfinished
        rw [hsame, if_neg Bool.false_ne_true]
        rfl
      · intro hclosed
        rw [heof] at hclosed
        cases hclosed
    | ready outcome reader rest =>
      rw [hpoll] at hexplains
      refine ⟨(fun _ h => by cases h), rfl, ?_, ?_⟩
      · show _ = (s.outcomes ++ [outcome]) ++ remaining parse _ future
        -- The outcome moves from what remains to what has been.
        have hsame : finished ⟨reader, rest, s.eof, none, s.outcomes ++ [outcome]⟩ =
            isLast outcome := by
          show (s.outcomes ++ [outcome]).any isLast = _
          rw [List.any_append, show s.outcomes.any isLast = false from hfinished]
          simp
        have hbefore : s.remaining parse future = outcome :: if isLast outcome then []
            else expected parse reader.pendingPut reader.line (rest ++ future) := hexplains
        rw [hbefore, remaining, hsame, List.append_assoc]
        rfl
      · intro _ _
        exact List.length_append

/-- What the schedule adds to a stream that may be closed already. -/
def added (s : Input) (events : List Event) : Bytes := if s.eof then [] else arrivals events

theorem run_cons (event : Event) (events : List Event) :
    run parse s (event :: events) = run parse (step parse s event) events := rfl

theorem run_append (events later : List Event) :
    run parse s (events ++ later) = run parse (run parse s events) later :=
  List.foldl_append

/-- A closed stream stays closed. -/
theorem run_eof {events : List Event} (h : s.eof = true) : (run parse s events).eof = true := by
  induction events generalizing s with
  | nil => exact h
  | cons event events ih =>
    refine ih ?_
    cases event with
    | arrive bytes =>
      rw [step, if_pos h]
      exact h
    | close => rfl
    | poll =>
      unfold step
      dsimp only
      split
      · exact h
      · split <;> exact h
    | drop => exact h

/-- The outcomes so far and those that remain are the same at every point of a schedule. -/
theorem run_outcomes (parse : Bytes → Except String Request) (future : Bytes) (hok : s.Ok)
    (events : List Event)
    (hfuture : (run parse s events).eof = true → future = []) :
    (run parse s events).Ok ∧
      s.outcomes ++ s.remaining parse (s.added events ++ future) =
        (run parse s events).outcomes ++ (run parse s events).remaining parse future := by
  -- `future` is what comes after the schedule; it moves into what the rest of it adds.
  induction events generalizing s with
  | nil =>
    refine ⟨hok, ?_⟩
    have hadded : s.added [] = [] := by
      unfold added
      split <;> rfl
    rw [hadded]
    rfl
  | cons event events ih =>
    rw [run_cons] at hfuture ⊢
    cases event with
    | arrive bytes =>
      cases heof : s.eof with
      | true =>
        have hstep : step parse s (.arrive bytes) = s := if_pos heof
        rw [hstep] at hfuture ⊢
        have hadded : s.added (.arrive bytes :: events) = s.added events := by
          rw [added, added, heof]
          rfl
        rw [hadded]
        exact ih hok hfuture
      | false =>
        have hstep : step parse s (.arrive bytes) = { s with arrived := s.arrived ++ bytes } :=
          if_neg (by rw [heof]; exact Bool.false_ne_true)
        rw [hstep] at hfuture ⊢
        obtain ⟨hok', heq⟩ := ih (s := { s with arrived := s.arrived ++ bytes }) hok hfuture
        refine ⟨hok', Eq.trans ?_ heq⟩
        show _ ++ remaining parse s _ = _ ++ remaining parse _ _
        unfold remaining added
        simp [heof, arrivals, finished]
    | close =>
      have hclosed : (run parse (step parse s .close) events).eof = true := run_eof rfl
      -- Once closed, nothing comes any more.
      obtain rfl := hfuture hclosed
      obtain ⟨hok', heq⟩ := ih (s := { s with eof := true }) hok hfuture
      refine ⟨hok', Eq.trans ?_ heq⟩
      have hadded : s.added (.close :: events) = [] := by
        unfold added
        split <;> rfl
      rw [hadded]
      rfl
    | poll =>
      have hnext : s.eof = true → s.added events ++ future = [] := by
        intro heof
        have hstep : (run parse s [.poll]).eof = true := run_eof heof
        rw [hfuture (run_eof hstep), added, if_pos heof]
        rfl
      obtain ⟨hok', heof, heq, -⟩ := step_poll parse _ hok hnext
      obtain ⟨hok'', heq'⟩ := ih hok' hfuture
      refine ⟨hok'', Eq.trans ?_ heq'⟩
      have hadded : (step parse s .poll).added events = s.added events := by
        rw [added, added, heof]
      rw [hadded, ← heq]
      rfl
    | drop =>
      -- A dropped call loses its count and no byte.
      obtain ⟨hok', heq⟩ := ih (s := { s with call := none }) (fun _ h => by cases h) hfuture
      exact ⟨hok', heq⟩

theorem expected_ne_nil (pendingPut : Option Request) (line stream : Bytes) :
    expected parse pendingPut line stream ≠ [] := by
  induction stream generalizing pendingPut line with
  | nil =>
    rw [expected]
    split
    · exact List.cons_ne_nil _ _
    · exact List.append_ne_nil_of_right_ne_nil _ (List.cons_ne_nil _ _)
  | cons b rest ih =>
    rw [expected]
    dsimp only
    split
    · split
      · exact ih pendingPut []
      · exact List.append_ne_nil_of_right_ne_nil _ (ih _ [])
    · exact ih pendingPut _

/-- Once the stream is closed, as many polls as there are outcomes return all of them. -/
theorem run_polls (hok : s.Ok) (heof : s.eof = true) {n : Nat}
    (hn : (s.remaining parse []).length ≤ n) :
    (run parse s (List.replicate n .poll)).finished = true ∧
      (run parse s (List.replicate n .poll)).outcomes = s.outcomes ++ s.remaining parse [] := by
  have hdone : ∀ t : Input, t.remaining parse [] = [] → t.finished = true := by
    intro t ht
    unfold remaining at ht
    split at ht
    · assumption
    · exact absurd ht (expected_ne_nil _ _ _)
  induction n generalizing s with
  | zero =>
    have hnil := List.eq_nil_of_length_eq_zero (Nat.le_zero.mp hn)
    refine ⟨hdone s hnil, ?_⟩
    rw [hnil, List.append_nil]
    rfl
  | succ n ih =>
    obtain ⟨hok', heof', heq, hlength⟩ := step_poll parse [] hok fun _ => rfl
    rw [List.replicate_succ, run_cons, heq]
    refine ih hok' (heof'.trans heof) ?_
    have htotal := congrArg List.length heq
    rw [List.length_append, List.length_append] at htotal
    cases hfinished : s.finished with
    | true =>
      have hstep : step parse s .poll = s := if_pos hfinished
      rw [hstep, remaining, hfinished]
      exact Nat.zero_le n
    | false =>
      have hgrow := hlength heof hfinished
      omega

theorem arrivals_append_close (events later : List Event) :
    arrivals (events ++ .close :: later) = arrivals events := by
  induction events with
  | nil => rfl
  | cons event events ih =>
    cases event with
    | arrive bytes => exact congrArg (bytes ++ ·) ih
    | close => rfl
    | poll => exact ih
    | drop => exact ih

/-- A schedule that closes the stream and then polls often enough returns what the automaton
emits on the bytes that arrived. -/
theorem run_close (parse : Bytes → Except String Request) (schedule : List Event) :
    (run parse initial (schedule ++ .close ::
        List.replicate ((arrivals schedule).length + 1) .poll)).finished = true ∧
      (run parse initial (schedule ++ .close ::
        List.replicate ((arrivals schedule).length + 1) .poll)).outcomes =
          expected parse none [] (arrivals schedule) := by
  have hinitial : initial.Ok := fun _ h => by cases h
  obtain ⟨hok, heq⟩ := run_outcomes parse [] hinitial (schedule ++ [.close]) fun _ => rfl
  have hstream : initial.added (schedule ++ [.close]) = arrivals schedule :=
    arrivals_append_close schedule []
  rw [hstream, List.append_nil] at heq
  have hclosed : (run parse initial (schedule ++ [.close])).eof = true := by
    rw [run_append]
    rfl
  have hbound : (expected parse none [] (arrivals schedule)).length ≤
      (arrivals schedule).length + 1 := length_expected parse none [] _
  have htotal : expected parse none [] (arrivals schedule) =
      (run parse initial (schedule ++ [.close])).outcomes ++
        (run parse initial (schedule ++ [.close])).remaining parse [] := heq
  have henough : ((run parse initial (schedule ++ [.close])).remaining parse []).length ≤
      (arrivals schedule).length + 1 := by
    rw [htotal, List.length_append] at hbound
    omega
  have hpolls := run_polls hok hclosed henough
  rw [← htotal, ← run_append, List.append_assoc] at hpolls
  exact hpolls

theorem undisturbed_outcomes (parse : Bytes → Except String Request) (stream : Bytes) :
    (undisturbed parse stream).finished = true ∧
      (undisturbed parse stream).outcomes = expected parse none [] stream := by
  have hclose := run_close parse [.arrive stream]
  have harrivals : arrivals [.arrive stream] = stream := List.append_nil stream
  rw [harrivals] at hclose
  exact hclose

/-- What calls have returned is the beginning of what the undisturbed reader returns. -/
theorem outcomes_beginning (parse : Bytes → Except String Request) (schedule : List Event)
    {later : Bytes} (hlater : (run parse initial schedule).eof = true → later = []) :
    (run parse initial schedule).outcomes <+:
      (undisturbed parse (arrivals schedule ++ later)).outcomes := by
  have hinitial : initial.Ok := fun _ h => by cases h
  obtain ⟨-, heq⟩ := run_outcomes parse later hinitial schedule hlater
  have htotal : expected parse none [] (arrivals schedule ++ later) =
      (run parse initial schedule).outcomes ++
        (run parse initial schedule).remaining parse later := heq
  rw [(undisturbed_outcomes parse _).2, htotal]
  exact List.prefix_append _ _

/-- However the stream arrives, and whenever calls are dropped, what they return is the
beginning of what the undisturbed reader returns on it, and all of it once the stream has
ended and has been polled to the end. -/
theorem cancellation_safe (parse : Bytes → Except String Request) (schedule : List Event) :
    (∀ later, ((run parse initial schedule).eof = true → later = []) →
      (run parse initial schedule).outcomes <+:
        (undisturbed parse (arrivals schedule ++ later)).outcomes) ∧
    ((run parse initial schedule).finished = true →
      (run parse initial schedule).outcomes =
        (undisturbed parse (arrivals schedule)).outcomes) ∧
    (undisturbed parse (arrivals schedule)).finished = true ∧
    (run parse initial (schedule ++ .close ::
      List.replicate ((arrivals schedule).length + 1) .poll)).outcomes =
        (undisturbed parse (arrivals schedule)).outcomes := by
  have hinitial : initial.Ok := fun _ h => by cases h
  obtain ⟨hfinished, hall⟩ := undisturbed_outcomes parse (arrivals schedule)
  refine ⟨fun later hlater => outcomes_beginning parse schedule hlater, ?_, hfinished, ?_⟩
  · intro hdone
    obtain ⟨-, heq⟩ := run_outcomes parse [] hinitial schedule fun _ => rfl
    have htotal : expected parse none [] (arrivals schedule ++ []) =
        (run parse initial schedule).outcomes ++
          (run parse initial schedule).remaining parse [] := heq
    rw [List.append_nil, remaining, if_pos hdone, List.append_nil] at htotal
    rw [hall, htotal]
  · rw [(run_close parse schedule).2, hall]

end Input

end Flywheel.Cacheprog
