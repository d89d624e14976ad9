import PromptLine.Command

/-!
# Entries of a modal key table

In a modal table a key has one entry for each status in which it means something.  An entry says
what the key does there and which status comes next.
-/

namespace PromptLine

/-- Whether a command is remembered as the last change. -/
inductive Recording
  | always
  /-- When it completes or begins an operator that takes text away. -/
  | withOperator
  | never
  deriving DecidableEq, Repr

/-- What a key does in one status. -/
structure Entry where
  command : Command
  required : Status
  next : Status
  recording : Recording
  deriving DecidableEq, Repr

/-- What a key does, status by status. -/
abbrev Entries := List Entry

/-- Whether carrying the entry out replaces the remembered change. -/
def Entry.isRecorded (entry : Entry) (current : Status) : Bool :=
  match entry.recording with
  | .always => true
  | .never => false
  | .withOperator => current.removesText || entry.next.removesText

namespace Entries

/-- The entry for a status. -/
def for? (entries : Entries) (current : Status) : Option Entry :=
  entries.find? fun entry => entry.required == current

/-- Whether there is one entry only. -/
def isDirect (entries : Entries) : Bool := entries.length == 1

end Entries

end PromptLine
