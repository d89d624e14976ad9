import PromptLine.Text

/-!
# Keys of a terminal

A terminal sends a key as a short sequence of code points: one control code, or an escape followed
by the rest of a control sequence.  Some keys exist in several dialects (`ESC [ H` and `ESC O H`
are both Home), and a dialect is a key of its own here, because each has to be bound by itself.
-/

namespace PromptLine

/-- The escape code. -/
def escape : Char := '\x1b'

/-- The delete code, which the backspace key sends. -/
def deleteCode : Char := '\x7f'

/-- The keys that have a name. -/
inductive Key
  | char (c : Char)
  | ctrl (c : Char)
  /-- A character typed with the meta key, which arrives with an escape in front. -/
  | chord (c : Char)
  | escape
  | enter
  | newline
  | tab
  | backspace
  | up
  | down
  | right
  | left
  | upSs3
  | downSs3
  | rightSs3
  | leftSs3
  | ctrlRight
  | ctrlLeft
  | home
  | endKey
  | homeSs3
  | endSs3
  | homeVt
  | endVt
  | insert
  | delete
  | pageUp
  | pageDown
  deriving DecidableEq, Repr

namespace Key

/-- The control code of a character: the five low bits of its upper-case form. -/
def controlCode (c : Char) : Char :=
  Char.ofNat (c.toUpper.toNat % 32)

/-- A control sequence introduced by `ESC [`. -/
def bracketed (tail : String) : Text := PromptLine.escape :: '[' :: tail.toList

/-- A control sequence introduced by `ESC O`. -/
def singleShift (last : Char) : Text := [PromptLine.escape, 'O', last]

/-- What the terminal sends for a key. -/
def sequence : Key → Text
  | char c => [c]
  | ctrl c => [controlCode c]
  | chord c => [PromptLine.escape, c]
  | escape => [PromptLine.escape]
  | enter => ['\r']
  | newline => ['\n']
  | tab => ['\t']
  | backspace => [deleteCode]
  | up => bracketed "A"
  | down => bracketed "B"
  | right => bracketed "C"
  | left => bracketed "D"
  | upSs3 => singleShift 'A'
  | downSs3 => singleShift 'B'
  | rightSs3 => singleShift 'C'
  | leftSs3 => singleShift 'D'
  | ctrlRight => bracketed "1;5C"
  | ctrlLeft => bracketed "1;5D"
  | home => bracketed "H"
  | endKey => bracketed "F"
  | homeSs3 => singleShift 'H'
  | endSs3 => singleShift 'F'
  | homeVt => bracketed "1~"
  | endVt => bracketed "4~"
  | insert => bracketed "2~"
  | delete => bracketed "3~"
  | pageUp => bracketed "5~"
  | pageDown => bracketed "6~"

/-- The name under which a key is shown. -/
def label : Key → String
  | char c => c.toString
  | ctrl c => "Ctrl-" ++ c.toUpper.toString
  | chord c => "Meta-" ++ c.toString
  | escape => "Escape"
  | enter => "Enter"
  | newline => "Newline"
  | tab => "Tab"
  | backspace => "Backspace"
  | up => "Up"
  | down => "Down"
  | right => "Right"
  | left => "Left"
  | upSs3 => "UpSs3"
  | downSs3 => "DownSs3"
  | rightSs3 => "RightSs3"
  | leftSs3 => "LeftSs3"
  | ctrlRight => "CtrlRight"
  | ctrlLeft => "CtrlLeft"
  | home => "Home"
  | endKey => "End"
  | homeSs3 => "HomeSs3"
  | endSs3 => "EndSs3"
  | homeVt => "HomeVt"
  | endVt => "EndVt"
  | insert => "Insert"
  | delete => "Delete"
  | pageUp => "PageUp"
  | pageDown => "PageDown"

/-- The keys that carry no character. -/
def fixed : List Key := [escape, enter, newline, tab, backspace, up, down, right, left, upSs3,
  downSs3, rightSs3, leftSs3, ctrlRight, ctrlLeft, home, endKey, homeSs3, endSs3, homeVt, endVt,
  insert, delete, pageUp, pageDown]

theorem sequence_ne_nil (key : Key) : key.sequence ≠ [] := by
  cases key <;> simp [sequence, bracketed, singleShift]

end Key

/-! ## Caret notation -/

/-- How one code point is shown in the name of a sequence: control codes as a caret and a letter,
everything else as itself. -/
def caret (c : Char) : Text :=
  if c = deleteCode then ['^', '?']
  else if c.toNat < 0x20 then ['^', Char.ofNat (c.toNat + 0x40)]
  else [c]

/-- The name of a sequence that no key is named for. -/
def caretText (sequence : Text) : String := String.ofList (sequence.flatMap caret)

end PromptLine
