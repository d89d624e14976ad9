import PromptLine.Config
import PromptLine.Line.Buffer
import PromptLine.Line.KillRing
import PromptLine.Status
import PromptLine.Unicode.Alphanumeric
import PromptLine.Unicode.CaseMapping

/-!
# What commands work on

A desk holds the three things that a command can touch: the line, the texts that were deleted or
copied, and the history.  Nearly every command comes down to `applyRange`, which does one operation
to the text between two positions, whichever of them comes first.
-/

namespace PromptLine

/-- The line with what belongs to it. -/
structure Desk where
  buffer : LineBuffer
  kills : KillRing
  history : History
  deriving DecidableEq, Repr

/-- The circumstances under which a command runs. -/
structure Setting where
  config : Config
  /-- In command mode the cursor stands on a character, not behind the last one. -/
  commandMode : Bool
  deriving DecidableEq, Repr

/-- What a command means for whoever ran it. -/
inductive Outcome
  | proceed
  /-- The line is finished. -/
  | commit (line : Text)
  | eof
  | interrupted
  /-- Completion is asked for. -/
  | complete
  | bell (style : BellStyle)
  | clearScreen
  deriving DecidableEq, Repr

/-- What is shown in place of the line, and where its cursor is. -/
structure Banner where
  text : Text
  cursor : Nat
  deriving DecidableEq, Repr

/-- What running a command leads to. -/
structure Reaction where
  desk : Desk
  outcome : Outcome
  banner : Option Banner
  deriving DecidableEq, Repr

/-- The bell, in the style that is configured. -/
def Setting.bell (setting : Setting) : Outcome := .bell setting.config.bellStyle

/-! ## Changing case -/

/-- One character under a case operation.  `inWord` says whether it continues a word. -/
def recase (operation : Status) (inWord : Bool) (c : Char) : Text :=
  match operation with
  | .upCase => Unicode.toUpper c
  | .downCase => Unicode.toLower c
  | _ =>
    if Unicode.isAlphanumeric c then
      if inWord then Unicode.toLower c else Unicode.toUpper c
    else [c]

/-- A text under a case operation. -/
def recaseText (operation : Status) : Bool → Text → Text
  | _, [] => []
  | inWord, c :: rest =>
    recase operation inWord c ++ recaseText operation (Unicode.isAlphanumeric c) rest

namespace LineBuffer

/-- Whether the character before a position belongs to a word. -/
def followsWord (b : LineBuffer) (position : Nat) : Bool :=
  ((b.text.take position).getLast?).any Unicode.isAlphanumeric

/-- In command mode, takes the cursor back from behind the last character. -/
def settle (commandMode : Bool) (b : LineBuffer) : LineBuffer :=
  if commandMode = true ∧ 0 < b.length ∧ b.length ≤ b.cursor then b.place (b.length - 1) else b

@[simp] theorem settle_false (b : LineBuffer) : b.settle false = b := by simp [settle]

@[simp] theorem text_settle (commandMode : Bool) (b : LineBuffer) :
    (b.settle commandMode).text = b.text := by
  unfold settle; split <;> rfl

end LineBuffer

namespace Desk

/-- The desk with another line. -/
def withBuffer (d : Desk) (b : LineBuffer) : Desk := { d with buffer := b }

/-- Settles the cursor of the line. -/
def settle (commandMode : Bool) (d : Desk) : Desk := d.withBuffer (d.buffer.settle commandMode)

/-- Copies a range to the kill ring, unless the line is not to be seen. -/
def keep (d : Desk) (first last : Nat) : Desk :=
  if d.buffer.masked then d else { d with kills := d.kills.add (d.buffer.slice first last) }

/-- Takes the text between two positions away, keeping a copy. -/
def cut (d : Desk) (start target : Nat) : Desk :=
  let d := d.keep (min start target) (max start target)
  d.withBuffer ((d.buffer.save.place start).delete (target - start))

/-- Puts the text between two positions into another case.  The cursor ends up behind the new
text, or in command mode at its start. -/
def changeCase (commandMode : Bool) (operation : Status) (d : Desk) (first last : Nat) : Desk :=
  let b := d.buffer
  let text := recaseText operation (b.followsWord first) (b.slice first last)
  let b := ((b.save.place first).delete (last - first : Nat)).insert text
  d.withBuffer (if commandMode then b.place first else b)

/-- Does an operation to the text between two positions, of which the first is where the cursor was
and the second is where a motion would take it.  A position behind the line counts as its end. -/
def applyRange (commandMode : Bool) (operation : Status) (start target : Nat) (d : Desk) : Desk :=
  let start := min start d.buffer.length
  let target := min target d.buffer.length
  let first := min start target
  let last := max start target
  settle commandMode <|
    match operation with
    | .delete | .change => if first = last then d else d.cut start target
    | .yank =>
      let d := if first = last then d else d.keep first last
      d.withBuffer (d.buffer.place first)
    | .upCase | .downCase | .capitalize =>
      if first = last then d else d.changeCase commandMode operation first last
    | _ => d.withBuffer (d.buffer.place target)

end Desk

end PromptLine
