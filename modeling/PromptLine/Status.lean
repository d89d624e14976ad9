import PromptLine.Text

/-!
# Statuses of the modal dispatcher

A modal editor reads a key by what it is in the middle of: inserting text, taking commands, or
waiting for the motion that an operator needs.  The same names say what is to be done with the text
between two positions, because an operator that waits and the operation it will carry out are one
idea.
-/

namespace PromptLine

/-- What a modal editor is in the middle of, and what a command does to a range. -/
inductive Status
  /-- Keys insert text. -/
  | edit
  | command
  | delete
  | change
  | yank
  /-- The next key replaces a character. -/
  | replace
  | upCase
  | downCase
  | capitalize
  | search
  | move
  /-- The last change is to be done again. -/
  | again
  deriving DecidableEq, Repr, Inhabited

namespace Status

/-- Every status. -/
def all : List Status :=
  [edit, command, delete, change, yank, replace, upCase, downCase, capitalize, search, move, again]

/-- The name of a status. -/
def label : Status → String
  | edit => "EDIT"
  | command => "COMMAND"
  | delete => "DELETE"
  | change => "CHANGE"
  | yank => "YANK"
  | replace => "REPLACE"
  | upCase => "UP_CASE"
  | downCase => "DOWN_CASE"
  | capitalize => "CAPITALIZE"
  | search => "SEARCH"
  | move => "MOVE"
  | again => "REPEAT"

/-- The status of a name. -/
def ofName? (name : Text) : Option Status := Text.choose? all label name

/-- What a motion typed in this status does with the range it covers: nothing but move, unless an
operator waits. -/
def operation : Status → Status
  | delete => delete
  | change => change
  | yank => yank
  | upCase => upCase
  | downCase => downCase
  | capitalize => capitalize
  | _ => move

/-- Whether an operator waits for its motion. -/
def awaitsMotion (s : Status) : Bool := s.operation != move

/-- The operators that take text away. -/
def removesText : Status → Bool
  | delete => true
  | change => true
  | _ => false

/-- Statuses in which what is typed is text. -/
def takesText : Status → Bool
  | edit => true
  | replace => true
  | _ => false

/-- The name that is shown can be read back. -/
theorem ofName?_label (s : Status) : ofName? s.label.toList = some s := by
  cases s <;> decide

/-- An operation is its own operation. -/
@[simp] theorem operation_operation (s : Status) : s.operation.operation = s.operation := by
  cases s <;> rfl

end Status

end PromptLine
