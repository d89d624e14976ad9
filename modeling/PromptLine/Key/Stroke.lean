import PromptLine.Key

/-!
# Keystrokes

A keystroke is a sequence of code points taken from the input as one, with a name to show.  What a
keystroke is bound to hangs on the sequence alone: two keystrokes with one sequence are the same
key, whatever they are called.
-/

namespace PromptLine

/-- One resolved unit of keyboard input. -/
structure Stroke where
  sequence : Text
  name : String
  deriving DecidableEq, Repr

namespace Stroke

/-- The keystroke of a named key. -/
def ofKey (key : Key) : Stroke := ⟨key.sequence, key.label⟩

/-- A keystroke named by its own caret notation. -/
def ofSequence (sequence : Text) : Stroke := ⟨sequence, caretText sequence⟩

/-- A code point that nothing is bound to, as a keystroke of its own. -/
def ofChar (c : Char) : Stroke := ofSequence [c]

/-- Whether two keystrokes are the same key. -/
def same (a b : Stroke) : Bool := a.sequence == b.sequence

/-- How many code points the keystroke takes from the input. -/
def length (stroke : Stroke) : Nat := stroke.sequence.length

/-- The code point of a keystroke that has only one. -/
def single? (stroke : Stroke) : Option Char :=
  match stroke.sequence with
  | [c] => some c
  | _ => none

/-- The code point of a keystroke that has only one, if that can stand in a line. -/
def printable? (stroke : Stroke) : Option Char :=
  stroke.single?.filter fun c => !Unicode.isControl c

/-- The keystroke with a leader in front of it. -/
def after (stroke leader : Stroke) : Stroke :=
  ⟨leader.sequence ++ stroke.sequence, leader.name ++ " " ++ stroke.name⟩

@[simp] theorem sequence_ofKey (key : Key) : (ofKey key).sequence = key.sequence := rfl

@[simp] theorem sequence_ofSequence (sequence : Text) : (ofSequence sequence).sequence = sequence :=
  rfl

@[simp] theorem sequence_ofChar (c : Char) : (ofChar c).sequence = [c] := rfl

end Stroke

end PromptLine
