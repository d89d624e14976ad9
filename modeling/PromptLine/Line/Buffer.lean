import PromptLine.Machine
import PromptLine.Text

/-!
# The line being edited

A buffer is a text with a cursor between two of its code points, and a stack of earlier states to
go back to.  Every operation clamps to the ends of the line instead of failing, so the cursor stays
within the text whatever it is asked to do.
-/

namespace PromptLine

/-- An editable line. -/
structure LineBuffer where
  text : Text
  cursor : Nat
  /-- Saved texts and cursors, the latest first. -/
  saved : List (Text × Nat)
  /-- Password entry: the line must not be shown or copied. -/
  masked : Bool
  deriving DecidableEq, Repr

namespace LineBuffer

/-- How many states are kept to go back to. -/
def undoLimit : Nat := 100

/-- An empty line. -/
def empty (masked : Bool) : LineBuffer := ⟨[], 0, [], masked⟩

/-- How many code points the line has. -/
def length (b : LineBuffer) : Nat := b.text.length

/-- The text before the cursor. -/
def before (b : LineBuffer) : Text := b.text.take b.cursor

/-- The text from the cursor on. -/
def after (b : LineBuffer) : Text := b.text.drop b.cursor

/-- The text of the range from `first` up to but not including `last`. -/
def slice (b : LineBuffer) (first last : Nat) : Text := (b.text.take last).drop first

/-! ## The cursor -/

/-- Puts the cursor at a position, or at the end of a line that is shorter. -/
def place (b : LineBuffer) (position : Nat) : LineBuffer :=
  { b with cursor := min position b.length }

/-- Moves the cursor by a distance, as far as the line goes. -/
def move (b : LineBuffer) (distance : Int) : LineBuffer :=
  b.place (b.cursor + distance).toNat

/-- The distance that the cursor has to go to a position, as a machine computes it. -/
def distanceTo (b : LineBuffer) (position : UInt64) : Except Fault Int64 :=
  Machine.difference position.toInt64 (UInt64.ofNat b.cursor).toInt64

/-- Puts the cursor at a position given as a 64-bit word.  The distance to go is computed in signed
64-bit arithmetic, so a position of `2 ^ 63` or more counts as lying before the line.  Where the
distance is no word, a machine that checks its sums stops, and this is what others do. -/
def setCursor (b : LineBuffer) (position : UInt64) : LineBuffer :=
  b.move (position.toInt64 - Int64.ofNat b.cursor).toInt

/-! ## The text -/

/-- Inserts at the cursor, which ends up behind the inserted text. -/
def insert (b : LineBuffer) (text : Text) : LineBuffer :=
  { b with text := b.before ++ text ++ b.after, cursor := b.cursor + text.length }

/-- Deletes up to `count` code points after the cursor. -/
def eraseAfter (b : LineBuffer) (count : Nat) : LineBuffer :=
  { b with text := b.before ++ b.after.drop count }

/-- Deletes up to `count` code points before the cursor, which moves back by as much. -/
def eraseBefore (b : LineBuffer) (count : Nat) : LineBuffer :=
  { b with text := b.text.take (b.cursor - count) ++ b.after, cursor := b.cursor - count }

/-- Deletes after the cursor for a positive distance, and before it for a negative one. -/
def delete (b : LineBuffer) (distance : Int) : LineBuffer :=
  if 0 ≤ distance then b.eraseAfter distance.natAbs else b.eraseBefore distance.natAbs

/-- Replaces the whole line.  The cursor goes to its end. -/
def replace (b : LineBuffer) (text : Text) : LineBuffer :=
  { b with text := text, cursor := text.length }

/-- Empties the line.  The saved states stay. -/
def clear (b : LineBuffer) : LineBuffer := b.replace []

/-! ## Going back -/

/-- Saves the text and the cursor.  When too many states are saved the oldest is forgotten. -/
def save (b : LineBuffer) : LineBuffer :=
  { b with saved := ((b.text, b.cursor) :: b.saved).take undoLimit }

/-- Goes back to the state saved last, if there is one. -/
def undo? (b : LineBuffer) : Option LineBuffer :=
  match b.saved with
  | [] => none
  | (text, cursor) :: saved => some { b with text := text, cursor := cursor, saved := saved }

/-! ## Small facts -/

@[simp] theorem before_append_after (b : LineBuffer) : b.before ++ b.after = b.text :=
  List.take_append_drop ..

theorem cursor_place_le (b : LineBuffer) (position : Nat) :
    (b.place position).cursor ≤ (b.place position).length :=
  Nat.min_le_right ..

@[simp] theorem text_place (b : LineBuffer) (position : Nat) :
    (b.place position).text = b.text := rfl

@[simp] theorem length_insert (b : LineBuffer) (text : Text) :
    (b.insert text).length = b.length + text.length := by
  have h := congrArg List.length b.before_append_after
  simp only [List.length_append] at h
  simp only [insert, length, List.length_append]
  omega

@[simp] theorem text_move (b : LineBuffer) (distance : Int) : (b.move distance).text = b.text := rfl

end LineBuffer

end PromptLine
