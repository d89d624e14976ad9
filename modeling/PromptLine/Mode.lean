import PromptLine.Mode.Vi

/-!
# Editing modes

The two dispatchers under one roof.  A mode turns keystrokes into actions.  An action that holds the
focus is part of the mode's state, so after such an action was applied it is put back into the mode.
-/

namespace PromptLine

/-- A dispatcher. -/
inductive Mode
  | emacs (m : Emacs)
  | vi (m : Vi)
  deriving DecidableEq, Repr

namespace Mode

/-- The dispatcher of an editing mode, for a device. -/
def start (mode : EditingMode) (report : DeviceReport) : Mode :=
  match mode with
  | .emacs => emacs (.start report)
  | .vi => vi (.start report)

/-- The editing mode of a dispatcher. -/
def editingMode : Mode → EditingMode
  | emacs _ => .emacs
  | vi _ => .vi

/-- Makes what a key means out of it. -/
def parse (m : Mode) (stroke : Stroke) : Mode × Option Action :=
  match m with
  | emacs e => (e.parse stroke).map emacs id
  | vi v => (v.parse stroke).map vi id

/-- The action in focus. -/
def focus? : Mode → Option Focus
  | emacs e => e.focus
  | vi v => v.focus

/-- Whether an action holds the focus. -/
def hasFocus (m : Mode) : Bool := m.focus?.any Focus.isHeld

/-- Takes an action back after it was applied.  Only one that holds the focus is remembered. -/
def takeBack (m : Mode) (action : Action) : Mode :=
  match m with
  | emacs e => emacs { e with focus := action.focusAfter e.focus }
  | vi v => vi { v with focus := action.focusAfter v.focus }

/-- Binds one more sequence. -/
def addCommand (m : Mode) (sequence : Text) (command : Command) : Except BindingError Mode :=
  match m with
  | emacs e => (e.addCommand sequence command).map emacs
  | vi v => (v.addCommand sequence command).map vi

/-- The sequences that input is cut by in the current state. -/
def keys : Mode → Trie
  | emacs e => e.keys
  | vi v => v.keys

/-- Whether the cursor has to stand on a character. -/
def isCommandMode : Mode → Bool
  | emacs _ => false
  | vi v => v.isCommandMode

/-- Back to the initial state. -/
def reset : Mode → Mode
  | emacs e => emacs e.reset
  | vi v => vi v.reset

end Mode

end PromptLine
