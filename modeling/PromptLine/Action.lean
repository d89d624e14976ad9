import PromptLine.Action.Focus

/-!
# Actions

An action is a command with everything that is needed to carry it out: how often, with which
operation, with which character.  A key makes an action, and the last one that changed the line can
be done again, so an action is a plain value that does not know where it came from.
-/

namespace PromptLine

/-- A motion with what is done to the text it covers. -/
structure RangeAction where
  command : Command
  motion : Motion
  operation : Status
  count : Nat
  deriving DecidableEq, Repr

/-- What a key leads to. -/
inductive Action
  | insert (c : Char)
  /-- Text that came as one key. -/
  | insertText (text : Text)
  /-- Puts a character in the place of the one under the cursor. -/
  | replaceChar (c : Char)
  | plain (command : Command) (count : Nat)
  | range (r : RangeAction)
  | focus (f : Focus)
  deriving DecidableEq, Repr

/-! ## Ranges -/

namespace RangeAction

/-- The two positions an action works between: where the cursor is, and where the motion ends.  A
whole line does not depend on the cursor, and an inclusive motion takes one character more when
something is done to it. -/
def ends (r : RangeAction) (b : LineBuffer) : Nat × Nat :=
  let (start, target) :=
    if r.motion = .wholeLine then (0, b.length)
    else (b.cursor, r.motion.targetAfter b.text r.count b.cursor)
  if r.motion.isInclusive = true ∧ r.operation ≠ .move then (start, min (target + 1) b.length)
  else (start, target)

/-- Carries the action out.  Copying a whole line leaves the cursor where it was. -/
def apply (commandMode : Bool) (r : RangeAction) (d : Desk) : Desk :=
  let (start, target) := r.ends d.buffer
  let after := d.applyRange commandMode r.operation start target
  if r.motion = .wholeLine ∧ r.operation = .yank then
    (after.withBuffer (after.buffer.place d.buffer.cursor)).settle commandMode
  else after

end RangeAction

/-! ## Plain commands -/

/-- Exchanges the character at a position with the one before it. -/
def transposeAt (right : Nat) (text : Text) : Text :=
  match text.drop (right - 1) with
  | a :: b :: rest => text.take (right - 1) ++ b :: a :: rest
  | _ => text

/-- The other case of a character: lower for upper, and upper for all else. -/
def toggleCase (c : Char) : Text :=
  if Unicode.isUppercase c then Unicode.toLower c else Unicode.toUpper c

namespace Desk

/-- A reaction that goes on with a line. -/
def edited (d : Desk) (b : LineBuffer) : Reaction := ⟨d.withBuffer b, .proceed, none⟩

/-- The reaction of a command that cannot be carried out. -/
def refused (setting : Setting) (d : Desk) : Reaction := ⟨d, setting.bell, none⟩

/-- Shows a line of the history, or rings the bell where there is none. -/
def showLine (setting : Setting) (d : Desk) (line : Option Text) : Reaction :=
  match line with
  | some line => d.edited ((d.buffer.replace line).settle setting.commandMode)
  | none => d.refused setting

/-- Keeps the line as the history's draft before the fetch cursor leaves it. -/
def keepDraft (d : Desk) : Desk :=
  if d.history.isOnDraft then { d with history := d.history.setDraft d.buffer.text } else d

/-- Puts the current text of the kill ring into the line, `count` times.  Pasting behind the cursor
steps over a character first, and the modal forms leave the cursor on the last character they put
in. -/
def putBack (setting : Setting) (command : Command) (count : Nat) (d : Desk) : Reaction :=
  match d.kills.current? with
  | none => d.refused setting
  | some text =>
    let b := d.buffer.save
    let b := if command = .viPasteAfter ∧ 0 < b.length then b.move 1 else b
    let b := b.insert (List.replicate count text).flatten
    d.edited (if command = .yank then b else b.move (-1))

/-- Exchanges the characters around the cursor, or the last two at the end of the line. -/
def transpose (setting : Setting) (d : Desk) : Reaction :=
  let b := d.buffer
  if b.length < 2 ∨ b.cursor = 0 then d.refused setting
  else
    let right := if b.cursor = b.length then b.cursor - 1 else b.cursor
    d.edited ((b.save.replace (transposeAt right b.text)).place (right + 1))

/-- Toggles the case of up to `count` characters from the cursor on. -/
def toggle (setting : Setting) (count : Nat) (d : Desk) : Reaction :=
  let b := d.buffer
  let last := min (b.cursor + count) b.length
  if b.cursor = last then d.edited b
  else
    let text := (b.slice b.cursor last).flatMap toggleCase
    d.edited (((b.save.delete (last - b.cursor : Nat)).insert text).settle setting.commandMode)

/-- Carries out a command that is not made of a motion.  Commands that only change the mode, and
those that are carried out in another way, do nothing here. -/
def run (setting : Setting) (command : Command) (count : Nat) (d : Desk) : Reaction :=
  match command with
  | .acceptLine => ⟨d, .commit d.buffer.text, none⟩
  | .interrupt => ⟨d, .interrupted, none⟩
  | .clearScreen => ⟨d, .clearScreen, none⟩
  | .complete => ⟨d, if setting.config.disableCompletion then .proceed else .complete, none⟩
  | .deleteCharOrEof =>
    if d.buffer.length = 0 then ⟨d, .eof, none⟩
    else
      ⟨RangeAction.apply setting.commandMode ⟨.deleteChar, .forwardChar, .delete, 1⟩ d, .proceed,
        none⟩
  | .previousHistory =>
    let d := d.keepDraft
    let (h, line) := d.history.previous
    showLine setting { d with history := h } line
  | .nextHistory =>
    let (h, line) := d.history.next
    showLine setting { d with history := h } (some line)
  | .beginningOfHistory =>
    let d := d.keepDraft
    let (h, line) := d.history.first
    showLine setting { d with history := h } line
  | .endOfHistory =>
    let (h, line) := d.history.last
    showLine setting { d with history := h } (some line)
  | .yank | .viPasteBefore | .viPasteAfter => d.putBack setting command count
  | .undo =>
    match d.buffer.undo? with
    | some b => d.edited (b.settle setting.commandMode)
    | none => d.refused setting
  | .transposeChars => d.transpose setting
  | .viToggleCase => d.toggle setting count
  | .viCommandMode => d.edited (d.buffer.move (-1))
  | .viAppend => d.edited (d.buffer.move 1)
  | .viAppendEnd => d.edited (d.buffer.place d.buffer.length)
  | .viInsertBeginning => d.edited (d.buffer.place (Motion.firstNonBlank.target d.buffer.text 0))
  | _ => d.edited d.buffer

end Desk

/-! ## All actions -/

namespace Action

/-- The action of a command under an operator.  A count of zero counts as one. -/
def ofCommand (command : Command) (operation : Status) (count : Nat) : Action :=
  let count := max count 1
  match Focus.ofCommand? command with
  | some f => .focus f
  | none =>
    let operation := command.ownOperation?.getD operation
    match command.motionFor? operation with
    | some motion => .range ⟨command, motion, operation, count⟩
    | none => .plain command count

/-- The action of a key that stands for itself, if all of its code points can stand in a line. -/
def ofStroke? (stroke : Stroke) : Option Action :=
  match stroke.printable? with
  | some c => some (.insert c)
  | none =>
    if 1 < stroke.length ∧ stroke.sequence.all (fun c => !Unicode.isControl c) then
      some (.insertText stroke.sequence)
    else none

/-- The command an action carries out. -/
def command : Action → Command
  | insert _ => .selfInsert
  | insertText _ => .selfInsert
  | replaceChar _ => .viReplace
  | plain command _ => command
  | range r => r.command
  | focus f => f.command

/-- Carries an action out.  An action that holds the focus comes back changed; every other one comes
back as it was. -/
def apply (setting : Setting) (action : Action) (d : Desk) : Action × Reaction :=
  match action with
  | insert c => (action, d.edited (d.buffer.save.insert [c]))
  | insertText text => (action, d.edited (d.buffer.save.insert text))
  | replaceChar c =>
    let b := d.buffer
    (action,
      d.edited
        (if b.cursor < b.length then ((b.save.delete 1).insert [c]).place b.cursor else b))
  | plain command count => (action, d.run setting command count)
  | range r => (action, ⟨r.apply setting.commandMode d, .proceed, none⟩)
  | focus f =>
    let (f, r) := f.apply setting d
    (focus f, r)

end Action

/-! ## Keeping the focus -/

/-- Hands a key to the action in focus.  An action that has let go of the focus is dropped, and the
key is nobody's yet. -/
def Focus.route (current : Option Focus) (resolved : Option Command) (stroke : Stroke) :
    Option Focus × Option Action :=
  match current with
  | none => (none, none)
  | some f =>
    if f.isHeld then
      let f := f.input resolved stroke
      (some f, some (.focus f))
    else (none, none)

/-- The focus after an action was made: the action takes it, if it is one that does. -/
def Action.focusAfter (action : Action) (current : Option Focus) : Option Focus :=
  match action with
  | .focus f => some f
  | _ => current

end PromptLine
