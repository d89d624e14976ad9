import PromptLine.Action.Search

/-!
# Actions that hold the focus

Two actions last longer than a key: quoting the next key, and searching the history.  As long as
one of them holds the focus it gets every key, and each key is handed to it before it is applied
again.
-/

namespace PromptLine

/-- Inserts the next key as it is, whatever it is bound to. -/
structure QuotedInsert where
  /-- The key to insert. -/
  pending : Option Stroke
  done : Bool
  deriving DecidableEq, Repr

namespace QuotedInsert

/-- Waits for a key. -/
def new : QuotedInsert := ⟨none, false⟩

/-- Inserts the key, if there is one, and is done. -/
def apply (q : QuotedInsert) (d : Desk) : QuotedInsert × Reaction :=
  match q.pending with
  | none => (q, ⟨d, .proceed, none⟩)
  | some stroke =>
    (⟨none, true⟩, ⟨d.withBuffer (d.buffer.save.insert stroke.sequence), .proceed, none⟩)

end QuotedInsert

/-- An action that takes keys itself. -/
inductive Focus
  | quoted (q : QuotedInsert)
  | search (s : Search)
  deriving DecidableEq, Repr

namespace Focus

/-- The action of a command that takes keys itself. -/
def ofCommand? : Command → Option Focus
  | .quotedInsert => some (.quoted .new)
  | .reverseSearchHistory => some (.search (.new .reverse))
  | .forwardSearchHistory => some (.search (.new .forward))
  | _ => none

/-- The command of the action. -/
def command : Focus → Command
  | quoted _ => .quotedInsert
  | search s => s.command

/-- Whether the next key still goes to the action. -/
def isHeld : Focus → Bool
  | quoted q => !q.done
  | search s => s.focused

/-- Hands a key to the action, with what it is bound to. -/
def input (f : Focus) (resolved : Option Command) (stroke : Stroke) : Focus :=
  match f with
  | quoted q => quoted { q with pending := some stroke }
  | search s => search (s.input resolved stroke)

/-- Applies the action. -/
def apply (setting : Setting) (f : Focus) (d : Desk) : Focus × Reaction :=
  match f with
  | quoted q =>
    let (q, r) := q.apply d
    (quoted q, r)
  | search s =>
    let (s, r) := s.apply setting d
    (search s, r)

theorem isSome_ofCommand? (command : Command) :
    (ofCommand? command).isSome = command.takesFocus := by
  cases command <;> rfl

end Focus

end PromptLine
