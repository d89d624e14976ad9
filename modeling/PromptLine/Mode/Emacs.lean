import PromptLine.Action
import PromptLine.Key.Device
import PromptLine.Mode.Leader

/-!
# The plain dispatcher

A key means the same whatever was typed before it, with two exceptions: the key after the escape
leader is looked up with the escape in front, and a focused action takes every key.
-/

namespace PromptLine

/-! ## The dispatcher -/

/-- The state of the plain dispatcher. -/
structure Emacs where
  table : Keymap Command
  leader : Leader
  focus : Option Focus
  deriving DecidableEq, Repr

namespace Emacs

/-- What the named keys do. -/
def keyBindings : List (Key × Command) := [
  (.ctrl 'A', .beginningOfLine),
  (.ctrl 'B', .backwardChar),
  (.ctrl 'C', .interrupt),
  (.ctrl 'D', .deleteCharOrEof),
  (.ctrl 'E', .endOfLine),
  (.ctrl 'F', .forwardChar),
  (.ctrl 'H', .backwardDeleteChar),
  (.tab, .complete),
  (.newline, .acceptLine),
  (.ctrl 'K', .killLine),
  (.ctrl 'L', .clearScreen),
  (.enter, .acceptLine),
  (.ctrl 'N', .nextHistory),
  (.ctrl 'P', .previousHistory),
  (.ctrl 'R', .reverseSearchHistory),
  (.ctrl 'S', .forwardSearchHistory),
  (.ctrl 'T', .transposeChars),
  (.ctrl 'U', .backwardKillLine),
  (.ctrl 'V', .quotedInsert),
  (.ctrl 'W', .unixWordRubout),
  (.ctrl 'Y', .yank),
  (.ctrl '_', .undo),
  (.backspace, .backwardDeleteChar),
  (.escape, .metaPrefix),
  (.chord 'f', .forwardWord),
  (.chord 'b', .backwardWord),
  (.chord 'd', .killWord),
  (.chord 'u', .upcaseWord),
  (.chord 'l', .downcaseWord),
  (.chord 'c', .capitalizeWord),
  (.chord '<', .beginningOfHistory),
  (.chord '>', .endOfHistory),
  (.up, .previousHistory),
  (.down, .nextHistory),
  (.right, .forwardChar),
  (.left, .backwardChar),
  (.upSs3, .previousHistory),
  (.downSs3, .nextHistory),
  (.rightSs3, .forwardChar),
  (.leftSs3, .backwardChar),
  (.ctrlRight, .forwardWord),
  (.ctrlLeft, .backwardWord),
  (.home, .beginningOfLine),
  (.endKey, .endOfLine),
  (.homeSs3, .beginningOfLine),
  (.endSs3, .endOfLine),
  (.delete, .deleteChar)]

/-- What sequences do that are no named key's. -/
def rawBindings : List (Text × Command) := [([escape, deleteCode], .backwardKillWord)]

/-- The bindings before a device has its say.  No two of them share a sequence. -/
def defaults : Bindings Command :=
  ⟨keyBindings.map (fun entry => (.ofKey entry.1, entry.2)) ++
    rawBindings.map fun entry => (.ofSequence entry.1, entry.2)⟩

/-- The dispatcher of a table, in its initial state. -/
def ofTable (table : Keymap Command) : Emacs := ⟨table, .idle, none⟩

/-- The dispatcher for a device. -/
def start (report : DeviceReport) : Emacs :=
  ofTable (.ofBindings (report.remap (some .killLine) defaults))

/-- The escape, which gives the next key its other meaning. -/
def leaderKey : Stroke := .ofKey .escape

/-- Makes the action of a command, which may take the focus. -/
def build (m : Emacs) (command : Command) : Emacs × Option Action :=
  let action := Action.ofCommand command .move 1
  ({ m with focus := action.focusAfter m.focus }, some action)

/-- Makes what a key means out of it, once it is known that no action has the focus. -/
def resolve (m : Emacs) (stroke : Stroke) : Emacs × Option Action :=
  let resolved := m.table.get? stroke
  let (leader, step) := m.leader.step leaderKey stroke (resolved == some .metaPrefix)
  let m := { m with leader := leader }
  match step with
  | .armed => (m, none)
  | .cleared => (m, none)
  | .target combined =>
    match m.table.get? combined with
    | some command => m.build command
    | none => (m, none)
  | .pass =>
    match resolved with
    | some command => m.build command
    | none => (m, stroke.printable?.map .insert)

/-- Makes what a key means out of it. -/
def parse (m : Emacs) (stroke : Stroke) : Emacs × Option Action :=
  match Focus.route m.focus (m.table.get? stroke) stroke with
  | (f, some action) => ({ m with focus := f }, some action)
  | (f, none) => resolve { m with focus := f } stroke

/-- Binds one more sequence. -/
def addCommand (m : Emacs) (sequence : Text) (command : Command) : Except BindingError Emacs :=
  (m.table.bindSequence sequence command).map fun table => { m with table := table }

/-- The sequences that input is cut by. -/
def keys (m : Emacs) : Trie := m.table.trie

/-- Back to the initial state, keeping the bindings. -/
def reset (m : Emacs) : Emacs := ofTable m.table

end Emacs

end PromptLine
