import PromptLine.Editor

/-!
# Sessions

A session reads its input for an editor and hands out finished lines one at a time.  It waits for
whatever comes first: a request to stop, a signal, and then either input or, while input is parked,
the gate.  It looks for them in this order.

A session that waits is a value too: it is known what it waits for, and it can be run on after the
world has changed.  A wait for input that was begun before the gate was closed is not taken back.
-/

namespace PromptLine

/-- What the platform tells a session besides its input. -/
inductive Signal
  | interrupt
  | resize (columns rows : Nat)
  deriving DecidableEq, Repr

/-- What arrives at the input. -/
inductive Arrival
  | bytes (chunk : List UInt8)
  | failure (reason : String)
  deriving DecidableEq, Repr

/-- The input of a session. -/
structure Source where
  arrivals : List Arrival
  /-- Nothing more will arrive. -/
  ended : Bool
  deriving DecidableEq, Repr

namespace Source

/-- How many bytes one read takes at most. -/
def readSize : Nat := 1024

/-- One read: bytes or a failure, or nothing while there is nothing to read.  No bytes are the end
of the input.  What a read leaves of a chunk stays in front. -/
def read? (source : Source) : Option (Source × Except String (List UInt8)) :=
  match source.arrivals with
  | [] => if source.ended then some (source, .ok []) else none
  | .failure reason :: rest => some ({ source with arrivals := rest }, .error reason)
  | .bytes chunk :: rest =>
    let left := chunk.drop readSize
    let rest := if left = [] then rest else .bytes left :: rest
    some ({ source with arrivals := rest }, .ok (chunk.take readSize))

/-- How many reads there can be before the input has to be waited for. -/
def backlog (source : Source) : Nat :=
  source.arrivals.foldr (fun arrival reads =>
    match arrival with
    | .bytes chunk => chunk.length + 1 + reads
    | .failure _ => 1 + reads) 1

end Source

/-- A session. -/
structure Session where
  editor : Editor
  source : Source
  parked : Bool
  stopRequested : Bool
  /-- Signals that were sent and not taken yet. -/
  signals : List Signal
  /-- The signals the handler was given, if there is a handler. -/
  handled : Option (List Signal)
  /-- Events that were not handed out yet. -/
  queue : List Event
  stopped : Bool

namespace Session

/-- A session over an editor, with nothing to read yet. -/
def new (editor : Editor) : Session :=
  { editor := editor
    source := ⟨[], false⟩
    parked := false
    stopRequested := false
    signals := []
    handled := none
    queue := []
    stopped := false }

/-! ## What happens around a session -/

/-- Something arrives at the input. -/
def arrive (s : Session) (arrival : Arrival) : Session :=
  { s with source := { s.source with arrivals := s.source.arrivals ++ [arrival] } }

/-- The input ends. -/
def endInput (s : Session) : Session := { s with source := { s.source with ended := true } }

/-- Closes the gate: no read is begun until it is opened. -/
def park (s : Session) : Session := { s with parked := true }

/-- Opens the gate. -/
def resume (s : Session) : Session := { s with parked := false }

/-- Asks the session to stop. -/
def requestStop (s : Session) : Session := { s with stopRequested := true }

/-- Sends a signal. -/
def send (s : Session) (signal : Signal) : Session := { s with signals := s.signals ++ [signal] }

/-- Gives signals to a new handler. -/
def withHandler (s : Session) : Session := { s with handled := some [] }

/-! ## Reading a line -/

/-- What a session waits for. -/
inductive Wait
  | input
  | gate
  deriving DecidableEq, Repr

/-- What a call has come to: an answer, or something to wait for. -/
inductive Progress
  /-- An event, or none because the session has stopped, or an error. -/
  | done (answer : Except EditorError (Option Event))
  | waiting (wait : Wait)

/-- What one turn of the loop leads to. -/
inductive Turn
  | again
  | finished (progress : Progress)

/-- Deals with what a read brought.  An error ends the session. -/
def receive (s : Session) (result : Except String (List UInt8)) : Session × Turn :=
  match result with
  | .error reason => ({ s with stopped := true }, .finished (.done (.error (.io reason))))
  | .ok [] => ({ s with stopped := true, queue := s.queue ++ [.eof] }, .again)
  | .ok bytes =>
    match s.editor.write bytes with
    | (editor, .error error) =>
      ({ s with editor := editor, stopped := true }, .finished (.done (.error error)))
    | (editor, .ok outcomes) =>
      ({ s with editor := editor, queue := s.queue ++ outcomes.filterMap Outcome.event? }, .again)

/-- Takes whatever comes first: a stop, then a signal, then what is waited for. -/
def select (s : Session) (wait : Wait) : Session × Turn :=
  if s.stopRequested then ({ s with stopRequested := false, stopped := true }, .again)
  else
    match s.signals with
    | signal :: rest =>
      ({ s with signals := rest, handled := s.handled.map (· ++ [signal]) }, .again)
    | [] =>
      match wait with
      | .gate => (s, if s.parked then .finished (.waiting .gate) else .again)
      | .input =>
        match s.source.read? with
        | none => (s, .finished (.waiting .input))
        | some (source, result) => receive { s with source := source } result

/-- The head of the loop: hands out an event, or begins to wait. -/
def turn (s : Session) : Session × Turn :=
  match s.queue with
  | event :: rest => ({ s with queue := rest }, .finished (.done (.ok (some event))))
  | [] =>
    if s.stopped then (s, .finished (.done (.ok none)))
    else s.select (if s.parked then .gate else .input)

/-- Turn after turn, as long as `fuel` lasts. -/
def turns : Nat → Session → Session × Progress
  | 0, s => (s, .waiting .input)
  | fuel + 1, s =>
    match s.turn with
    | (s, .finished progress) => (s, progress)
    | (s, .again) => turns fuel s

/-- How many turns there can be: each one takes a stop, a signal or a read, and at most one answers
or begins to wait. -/
def patience (s : Session) : Nat := s.signals.length + s.source.backlog + 3

/-- Asks for the next event. -/
def readLine (s : Session) : Session × Progress := turns s.patience s

/-- Runs a call on that waits. -/
def runOn (s : Session) (wait : Wait) : Session × Progress :=
  match s.select wait with
  | (s, .finished progress) => (s, progress)
  | (s, .again) => s.readLine

end Session

end PromptLine
