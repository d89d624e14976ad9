import PromptLine.Error
import PromptLine.Key.Input
import PromptLine.Mode
import PromptLine.Screen

/-!
# The editor

An editor turns bytes into edited lines: bytes are decoded, code points are cut into keystrokes,
keystrokes become actions, and actions change the line and the screen.  Keystrokes are dealt with
one at a time, because each can change how the next one is cut.

A finished line is an *event*.  It is handed to the listener, if there is one, once the screen has
moved on to a fresh line.

An editor goes on after a fault of a drawing, as it does on a machine that does not check its sums.
On one that does, it has stopped there, and its sink has the fault.  So what is said of an editor
holds on both machines as long as its sink has none, and otherwise on the one that goes on.
-/

namespace PromptLine

/-- How a line ended. -/
inductive Event
  | line (text : Text)
  | eof
  | interrupted
  deriving DecidableEq, Repr

/-- The event of an outcome that ends the line. -/
def Outcome.event? : Outcome → Option Event
  | commit line => some (.line line)
  | eof => some .eof
  | interrupted => some .interrupted
  | _ => none

/-- An editor. -/
structure Editor where
  config : Config
  report : DeviceReport
  decoder : Decoder
  input : KeyInput
  mode : Mode
  desk : Desk
  prompt : Text
  sink : Sink
  /-- The events the listener was given, if there is a listener. -/
  heard : Option (List Event)

namespace Editor

/-! ## Making an editor -/

/-- An editor with the usual parts: UTF-8, the usual keys, no prompt, and nobody who listens. -/
def new (config : Config) (sink : Sink) : Editor :=
  let mode := Mode.start config.editingMode .ansi
  { config := config
    report := .ansi
    decoder := .start .utf8
    input := .start mode.keys
    mode := mode
    desk := ⟨.empty false, .empty KillRing.defaultCapacity, .empty config.historySize⟩
    prompt := []
    sink := sink
    heard := none }

/-- Starts the mode of the configuration anew.  Input that is not cut yet is kept. -/
def rebuild (e : Editor) : Editor :=
  let mode := Mode.start e.config.editingMode e.report
  { e with mode := mode, input := e.input.setTrie mode.keys }

/-- Decodes another charset from now on.  What was staged is dropped. -/
def withCharset (e : Editor) (charset : Charset) : Editor := { e with decoder := .start charset }

/-- Adapts the keys to a device. -/
def withDevice (e : Editor) (report : DeviceReport) : Editor := rebuild { e with report := report }

/-- Gives events to a new listener. -/
def withListener (e : Editor) : Editor := { e with heard := some [] }

/-- Changes the editing mode. -/
def setEditingMode (e : Editor) (mode : EditingMode) : Editor :=
  rebuild { e with config := { e.config with editingMode := mode } }

/-- Binds a sequence to a command in the current mode. -/
def addCommand (e : Editor) (sequence : Text) (command : Command) :
    Except BindingError Editor :=
  (e.mode.addCommand sequence command).map fun mode =>
    { e with mode := mode, input := e.input.setTrie mode.keys }

/-- Binds a sequence to the command of a name. -/
def addNamed (e : Editor) (sequence name : Text) : Except BindingError Editor :=
  match Command.ofName? name with
  | none => .error (.unknownCommand name)
  | some command => e.addCommand sequence command

/-! ## Ending a line -/

/-- The circumstances under which actions are applied. -/
def setting (e : Editor) : Setting := ⟨e.config, e.mode.isCommandMode⟩

/-- Shows requests. -/
def present (e : Editor) (requests : List Request) : Editor × Option EditorError :=
  let (sink, failure) := e.sink.drawAll e.prompt requests
  ({ e with sink := sink }, failure.map .io)

/-- Hands an event to the listener. -/
def announce (e : Editor) (event : Event) : Editor :=
  { e with heard := e.heard.map (· ++ [event]) }

/-- The editor at the beginning of a fresh line: an empty line, the mode in its initial state, and
the history to be searched from its start again. -/
def freshLine (e : Editor) : Editor :=
  let d := e.desk
  { e with
    desk := { d with buffer := d.buffer.clear, history := d.history.restartSearch }
    mode := e.mode.reset }

/-- Starts a fresh line, and puts the screen on the next line.  The listener hears of the old line
after that. -/
def finishLine (e : Editor) (event : Event) : Editor × Option EditorError :=
  match e.freshLine.present [.newLine] with
  | (e, none) => (e.announce event, none)
  | (e, some error) => (e, some error)

/-- Puts the line into the history.  A line that is not to be seen does not enter it. -/
def recordLine (e : Editor) : Editor :=
  let d := e.desk
  { e with
    desk := if d.buffer.masked then d else { d with history := d.history.push d.buffer.text } }

/-! ## One keystroke -/

/-- What is drawn after an action that does not end the line: the banner it asks for, or the
line. -/
def drawing (e : Editor) (banner : Option Banner) : Request :=
  match banner with
  | some b => .banner b
  | none => .line e.desk.buffer.text e.desk.buffer.cursor e.desk.buffer.masked

/-- Does what an outcome asks for. -/
def conclude (e : Editor) (outcome : Outcome) (banner : Option Banner) :
    Editor × Option EditorError :=
  match outcome with
  | .commit line => e.recordLine.finishLine (.line line)
  | .eof => e.finishLine .eof
  | .interrupted => e.finishLine .interrupted
  | .bell style => e.present [.bell style, e.drawing banner]
  | .clearScreen => e.present [.clearScreen, e.drawing banner]
  | .proceed => e.present [e.drawing banner]
  | .complete => e.present [e.drawing banner]

/-- Applies an action and puts it back into the mode. -/
def applyAction (e : Editor) (action : Action) : Editor × Outcome × Option Banner :=
  let (action, reaction) := action.apply e.setting e.desk
  ({ e with desk := reaction.desk, mode := e.mode.takeBack action }, reaction.outcome,
    reaction.banner)

/-- What came of one keystroke: nothing, an outcome, or an error. -/
abbrev Handled := Except EditorError (Option Outcome)

/-- Carries an action out: applies it, and does what its outcome asks for. -/
def carryOut (e : Editor) (action : Action) : Editor × Handled :=
  let (e, outcome, banner) := e.applyAction action
  match e.conclude outcome banner with
  | (e, none) => (e, .ok (some outcome))
  | (e, some error) => (e, .error error)

/-- Makes an action of a keystroke and carries it out. -/
def perform (e : Editor) (stroke : Stroke) : Editor × Handled :=
  let (mode, action?) := e.mode.parse stroke
  let e := { e with mode := mode }
  match action? with
  | none => (e, .ok none)
  | some action => e.carryOut action

/-- Deals with one keystroke.  From then on input is cut as the mode's state asks for. -/
def handle (e : Editor) (stroke : Stroke) : Editor × Handled :=
  let (e, result) := e.perform stroke
  ({ e with input := e.input.setTrie e.mode.keys }, result)

/-! ## Writing -/

/-- Deals with keystroke after keystroke, as long as `fuel` lasts, up to the first error. -/
def runWithin : Nat → Editor → Editor × Except EditorError (List Outcome)
  | 0, e => (e, .ok [])
  | fuel + 1, e =>
    match e.input.next? with
    | none => (e, .ok [])
    | some (stroke, input) =>
      match handle { e with input := input } stroke with
      | (e, .error error) => (e, .error error)
      | (e, .ok outcome?) =>
        let (e, rest) := runWithin fuel e
        (e, rest.map (outcome?.toList ++ ·))

/-- Deals with every keystroke that is complete.  Each takes at least one code point of what is
pending. -/
def run (e : Editor) : Editor × Except EditorError (List Outcome) :=
  runWithin e.input.pending.length e

/-- Takes bytes from the transport and answers with the outcomes of the actions they led to.  Bytes
that cannot be decoded are refused as a whole. -/
def write (e : Editor) (bytes : List UInt8) : Editor × Except EditorError (List Outcome) :=
  let decoded := e.decoder.decode bytes
  let e := { e with decoder := decoded.decoder }
  match decoded.error with
  | some error => (e, .error (.decode error))
  | none => run { e with input := e.input.feed decoded.text }

end Editor

end PromptLine
