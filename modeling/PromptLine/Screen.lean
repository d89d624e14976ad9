import PromptLine.Charset.Encoding
import PromptLine.Key
import PromptLine.Line.Desk
import PromptLine.Machine

/-!
# What is written to the screen

After each command the line is drawn anew: back to the first column, clear what stands there, write,
and put the cursor where it belongs.  Columns count code points.  A terminal addresses columns by
16-bit numbers that start at one, and a column that is too far out has no such number: drawing there
is a fault.

Everything goes to a sink, which encodes text for the transport.  A sink can fail, at the write
itself or while the written bytes are flushed.  It also keeps the first fault of what was drawn.  A
machine that checks its sums has stopped there (`Sink.checked`); what the sink is given from then on
is what other machines write.
-/

namespace PromptLine

/-! ## Drawing -/

/-- Something to show. -/
inductive Request
  | line (text : Text) (cursor : Nat) (masked : Bool)
  | banner (banner : Banner)
  | bell (style : BellStyle)
  | clearScreen
  | newLine
  deriving DecidableEq, Repr

/-- A control sequence of the terminal. -/
def controlSequence (tail : String) : Text := escape :: '[' :: tail.toList

/-- Moves the cursor to a column, given from zero as a 16-bit word.  Terminals count from one, and
the addition is done in the word. -/
def cursorTo (column : UInt16) : Computed Text := do
  let number ← Machine.next column
  pure (controlSequence (toString number.toNat ++ "G"))

/-- The word for a column: the largest one stands for every column that is too far out. -/
def columnWord (column : Nat) : UInt16 := UInt16.ofNat (min column 65535)

/-- Draws a text in place of the current line and puts the cursor at a column. -/
def drawAt (text : Text) (column : Nat) : Computed Text := do
  let front ← cursorTo 0
  let back ← cursorTo (columnWord column)
  pure (front ++ controlSequence "K" ++ text ++ back)

/-- What a request looks like.  The characters of a masked line are shown as stars. -/
def Request.render (prompt : Text) : Request → Computed Text
  | line text cursor masked =>
    drawAt (prompt ++ if masked then text.map fun _ => '*' else text) (prompt.length + cursor)
  | banner b => drawAt b.text b.cursor
  | bell .audible => pure ['\x07']
  | bell .visible => pure []
  | bell .none => pure []
  | clearScreen => pure (controlSequence "2J" ++ controlSequence "1;1H")
  | newLine => pure ['\r', '\n']

/-! ## Sinks -/

/-- What becomes of one write. -/
inductive Fate
  | written
  /-- Nothing is written. -/
  | refused (reason : String)
  /-- The bytes are written, and flushing them fails. -/
  | stuck (reason : String)
  deriving DecidableEq, Repr

/-- Where output goes. -/
structure Sink where
  charset : Charset
  /-- The bytes of each write so far, the latest first. -/
  writes : List (List UInt8)
  /-- How many writes were tried. -/
  tried : Nat
  /-- The fate of each write, by its number. -/
  fate : Nat → Fate
  /-- The first fault of what was drawn so far. -/
  fault : Option Fault

namespace Sink

/-- A sink that never fails. -/
def reliable (charset : Charset) : Sink := ⟨charset, [], 0, fun _ => .written, none⟩

/-- Everything written so far. -/
def output (sink : Sink) : List UInt8 := sink.writes.reverse.flatten

/-- Writes a text as one piece.  An empty text is no write. -/
def write (sink : Sink) (text : Text) : Sink × Option String :=
  if text = [] then (sink, none)
  else
    let tried := { sink with tried := sink.tried + 1 }
    let done := { tried with writes := sink.charset.encode text :: sink.writes }
    match sink.fate sink.tried with
    | .written => (done, none)
    | .refused reason => (tried, some reason)
    | .stuck reason => (done, some reason)

/-- Shows one request.  A fault comes before anything is written. -/
def draw (prompt : Text) (sink : Sink) (request : Request) : Sink × Option String :=
  let drawn := request.render prompt
  { sink with fault := sink.fault.or drawn.fault }.write drawn.value

/-- Shows requests up to the first failure. -/
def drawAll (prompt : Text) (sink : Sink) : List Request → Sink × Option String
  | [] => (sink, none)
  | request :: rest =>
    match sink.draw prompt request with
    | (sink, none) => drawAll prompt sink rest
    | (sink, some reason) => (sink, some reason)

/-- What a machine that checks its sums makes of an answer: there is none once it has stopped. -/
def checked {α : Type} (sink : Sink) (answer : α) : Except Fault α :=
  Computed.checked ⟨answer, sink.fault⟩

end Sink

end PromptLine
