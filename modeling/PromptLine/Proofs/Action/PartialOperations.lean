import PromptLine.Proofs.Action.HistoryDraft
import PromptLine.Proofs.History.IndexedSearch
import PromptLine.Proofs.Line.IndexedMotions

/-!
# Actions within their domain

Actions are made of operations on the line, of motions and of searches of the history.  Here they
are spelled out once more, out of the operations that fail where there is nothing to operate on.  An
action fails as soon as one of its parts does.

None does.  An action finds the cursor within the line and the cursors of the history on its
entries, which is `Desk.Sound`; every action preserves this (`Desk.Sound.after`); and on such a desk
an action is carried out to its end and leads to what it always leads to (`Action.carryOut?_eq`).
Counts do not matter, and neither does what an earlier action has made of the line.
-/

namespace PromptLine

open Text

/-! ## What an action finds -/

namespace Desk

/-- The cursor is within the line, and the cursors of the history are on its entries. -/
structure Sound (d : Desk) : Prop where
  buffer : d.buffer.Sound
  history : d.history.Sound

variable {d : Desk} {setting : Setting}

theorem Sound.keepDraft (h : d.Sound) : d.keepDraft.Sound := by
  rw [Desk.keepDraft]
  split
  · exact ⟨h.buffer, h.history.perform (.setDraft d.buffer.text)⟩
  · exact h

/-- Showing a line of the history leaves the history as the line was fetched from it. -/
theorem Sound.showLine (h : d.Sound) {history : History} (hhistory : history.Sound)
    (line : Option Text) : (showLine setting { d with history := history } line).desk.Sound := by
  refine ⟨sound_showLine h.buffer history line, ?_⟩
  cases line <;> exact hhistory

/-- **Plain commands leave the history sound.** -/
theorem Sound.run (h : d.Sound) (command : Command) (count : Nat) :
    (d.run setting command count).desk.Sound := by
  cases hfetches : command.fetches with
  | false =>
    refine ⟨sound_run h.buffer command count, ?_⟩
    rw [history_run d setting count hfetches]
    exact h.history
  | true =>
    cases command with
    | previousHistory =>
      exact h.keepDraft.showLine h.keepDraft.history.previous d.keepDraft.history.previous.2
    | beginningOfHistory =>
      exact h.keepDraft.showLine (h.keepDraft.history.perform .first) d.keepDraft.history.first.2
    | nextHistory => exact h.showLine h.history.next (some d.history.next.2)
    | endOfHistory => exact h.showLine (h.history.perform .last) (some d.history.last.2)
    | _ => cases hfetches

end Desk

namespace Search

variable {h : History}

/-- Looking for a term leaves the history sound. -/
theorem sound_look (hsound : h.Sound) (setting : Setting) (s : Search) :
    (s.look setting h).2.1.Sound := by
  have hturned := hsound.setDirection s.direction
  have hsearched := hturned.search s.term
  rw [look]
  split
  · exact hturned
  · split
    all_goals
      next hsearch =>
      rw [hsearch] at hsearched
      exact hsearched

theorem sound_history_apply {d : Desk} (hsound : d.history.Sound) (setting : Setting) (s : Search) :
    (s.apply setting d).2.desk.history.Sound := by
  have hlooked : ∀ s : Search, (s.lookOn setting d).2.desk.history.Sound :=
    fun s => sound_look hsound setting s
  cases hstep : s.step with
  | start => rw [apply, hstep]; exact (hsound.setDirection s.direction).restartSearch
  | older => rw [apply, hstep]; exact hlooked s
  | newer => rw [apply, hstep]; exact hlooked s
  | shorten =>
    rw [apply, hstep]
    dsimp only
    split
    · exact hsound.restartSearch
    · exact hlooked _
  | _ => rw [apply, hstep]; exact hsound.restartSearch

end Search

/-- **Every action leaves the desk sound.** -/
theorem Desk.Sound.after {d : Desk} (h : d.Sound) (setting : Setting) (action : Action) :
    (d.after setting action).Sound := by
  refine ⟨Action.sound_apply h.buffer setting action, ?_⟩
  cases action with
  | insert c => exact h.history
  | insertText text => exact h.history
  | replaceChar c => exact h.history
  | plain command count => exact (h.run command count).history
  | range r =>
    show (r.apply setting.commandMode d).history.Sound
    rw [Desk.history_range]
    exact h.history
  | focus f =>
    cases f with
    | quoted q =>
      show (q.apply d).2.desk.history.Sound
      rw [QuotedInsert.apply]
      split <;> exact h.history
    | search s => exact Search.sound_history_apply h.history setting s

/-! ## Ranges -/

namespace RangeAction

/-- The two positions an action works between, with the motion computed by index. -/
def ends? (r : RangeAction) (b : LineBuffer) : Option (Nat × Nat) := do
  let covered? :=
    if r.motion = .wholeLine then some (0, b.length)
    else (r.motion.targetAfter? b.text r.count b.cursor).map (b.cursor, ·)
  let (start, target) ← covered?
  if r.motion.isInclusive = true ∧ r.operation ≠ .move then
    some (start, min (target + 1) b.length)
  else some (start, target)

/-- Carries the action out. -/
def carryOut? (commandMode : Bool) (r : RangeAction) (d : Desk) : Option Desk := do
  let (start, target) ← r.ends? d.buffer
  let after ← d.applyRange? commandMode r.operation start target
  if r.motion = .wholeLine ∧ r.operation = .yank then
    (after.withBuffer (after.buffer.place d.buffer.cursor)).settle? commandMode
  else some after

theorem ends?_eq (r : RangeAction) (b : LineBuffer) : r.ends? b = some (r.ends b) := by
  rw [ends?, ends, Motion.targetAfter?_eq]
  dsimp only
  split
  · show (if _ then _ else _) = _
    split <;> rfl
  · show (if _ then _ else _) = _
    split <;> rfl

/-- **An action on a range** stays on the line, for every motion, count and operation. -/
theorem carryOut?_eq {d : Desk} (h : d.buffer.Sound) (commandMode : Bool) (r : RangeAction) :
    r.carryOut? commandMode d = some (r.apply commandMode d) := by
  rw [carryOut?, apply, ends?_eq]
  rcases r.ends d.buffer with ⟨start, target⟩
  show (d.applyRange? commandMode r.operation start target).bind _ = _
  rw [Desk.applyRange?_eq h]
  dsimp only
  show (if _ then _ else _) = _
  split
  · exact Desk.settle?_eq commandMode _
  · rfl

end RangeAction

/-! ## Plain commands -/

/-- Swapping two characters that stand next to each other. -/
theorem Text.swap?_eq {text : Text} {right : Nat} (hleft : 0 < right)
    (hright : right < text.length) :
    swap? text (right - 1) right = some (transposeAt right text) := by
  have hindex : right - 1 < text.length := Nat.lt_of_le_of_lt (Nat.sub_le _ _) hright
  have hnext : right - 1 + 1 = right := Nat.sub_add_cancel hleft
  have hpair : text.drop (right - 1) = text[right - 1] :: text[right] :: text.drop (right + 1) := by
    simp only [List.drop_eq_getElem_cons hindex, hnext, List.drop_eq_getElem_cons hright]
  have hfront : (text.take (right - 1)).length = right - 1 :=
    List.length_take_of_le (Nat.le_of_lt hindex)
  have htext := List.take_append_drop (right - 1) text
  rw [hpair] at htext
  generalize text.take (right - 1) = front, text[right - 1] = a, text[right] = b,
    text.drop (right + 1) = rest at htext hfront
  rw [← htext, ← hnext, ← hfront, Nat.add_sub_cancel]
  simp [swap?, transposeAt]

namespace LineBuffer

/-- Inserts a text so many times, one time behind the other. -/
def insertTimes? (text : Text) : Nat → LineBuffer → Option LineBuffer
  | 0, b => some b
  | count + 1, b => do
    let b ← b.insert? text
    insertTimes? text count b

theorem insertTimes?_eq {b : LineBuffer} (h : b.Sound) (text : Text) (count : Nat) :
    b.insertTimes? text count = some (b.insert (List.replicate count text).flatten) := by
  induction count generalizing b with
  | zero => exact congrArg some b.insert_nil.symm
  | succ count ih =>
    rw [insertTimes?, insert?_eq h.cursor, List.replicate_succ, List.flatten_cons, ← insert_insert]
    exact ih (h.insert text)

end LineBuffer

namespace Desk

variable {d : Desk} {setting : Setting}

/-- Shows a line of the history, or rings the bell where there is none. -/
def showLine? (setting : Setting) (d : Desk) (line : Option Text) : Option Reaction :=
  match line with
  | some line => do
    let b ← (d.buffer.replace line).settle? setting.commandMode
    some (d.edited b)
  | none => some (d.refused setting)

/-- Puts the current text of the kill ring into the line, insertion by insertion. -/
def putBack? (setting : Setting) (command : Command) (count : Nat) (d : Desk) : Option Reaction :=
  match d.kills.current? with
  | none => some (d.refused setting)
  | some text => do
    let b := d.buffer.save
    let b := if command = .viPasteAfter ∧ 0 < b.length then b.move 1 else b
    let b ← b.insertTimes? text count
    some (d.edited (if command = .yank then b else b.move (-1)))

/-- Exchanges the characters around the cursor, or the last two at the end of the line. -/
def transpose? (setting : Setting) (d : Desk) : Option Reaction :=
  let b := d.buffer
  if b.length < 2 ∨ b.cursor = 0 then some (d.refused setting)
  else do
    let right? := if b.cursor = b.length then minus? b.cursor 1 else some b.cursor
    let right ← right?
    let left ← minus? right 1
    let text ← swap? b.text left right
    some (d.edited ((b.save.replace text).place (right + 1)))

/-- Toggles the case of up to `count` characters from the cursor on. -/
def toggle? (setting : Setting) (count : Nat) (d : Desk) : Option Reaction :=
  let b := d.buffer
  let last := min (b.cursor + count) b.length
  if b.cursor = last then some (d.edited b)
  else do
    let text ← slice? b.text b.cursor last
    let covered ← minus? last b.cursor
    let b ← b.save.delete? covered
    let b ← b.insert? (text.flatMap toggleCase)
    let b ← b.settle? setting.commandMode
    some (d.edited b)

/-- Carries out a command that is not made of a motion.  Those that are not listed have no part that
can fail. -/
def run? (setting : Setting) (command : Command) (count : Nat) (d : Desk) : Option Reaction :=
  match command with
  | .deleteCharOrEof =>
    if d.buffer.length = 0 then some ⟨d, .eof, none⟩
    else do
      let d ← RangeAction.carryOut? setting.commandMode ⟨.deleteChar, .forwardChar, .delete, 1⟩ d
      some ⟨d, .proceed, none⟩
  | .previousHistory =>
    let d := d.keepDraft
    let (h, line) := d.history.previous
    showLine? setting { d with history := h } line
  | .nextHistory =>
    let (h, line) := d.history.next
    showLine? setting { d with history := h } (some line)
  | .beginningOfHistory =>
    let d := d.keepDraft
    let (h, line) := d.history.first
    showLine? setting { d with history := h } line
  | .endOfHistory =>
    let (h, line) := d.history.last
    showLine? setting { d with history := h } (some line)
  | .yank | .viPasteBefore | .viPasteAfter => d.putBack? setting command count
  | .undo =>
    match d.buffer.undo? with
    | some b => do
      let b ← b.settle? setting.commandMode
      some (d.edited b)
    | none => some (d.refused setting)
  | .transposeChars => d.transpose? setting
  | .viToggleCase => d.toggle? setting count
  | _ => some (d.run setting command count)

theorem showLine?_eq (setting : Setting) (d : Desk) (line : Option Text) :
    d.showLine? setting line = some (d.showLine setting line) := by
  cases line with
  | none => rfl
  | some line =>
    rw [showLine?, LineBuffer.settle?_eq]
    rfl

theorem putBack?_eq (h : d.buffer.Sound) (setting : Setting) (command : Command) (count : Nat) :
    d.putBack? setting command count = some (d.putBack setting command count) := by
  rw [putBack?, putBack]
  cases d.kills.current? with
  | none => rfl
  | some text =>
    have hstepped : (if command = .viPasteAfter ∧ 0 < d.buffer.save.length then
        d.buffer.save.move 1 else d.buffer.save).Sound := by
      split
      · exact h.save.move 1
      · exact h.save
    dsimp only
    rw [LineBuffer.insertTimes?_eq hstepped]
    rfl

/-- The two characters to exchange are on the line. -/
theorem transpose?_eq (h : d.buffer.Sound) (setting : Setting) :
    d.transpose? setting = some (d.transpose setting) := by
  have hcursor := h.cursor
  rw [transpose?, transpose]
  dsimp only
  split
  · rfl
  · next henough =>
    have hback : 1 ≤ d.buffer.cursor := by omega
    obtain ⟨right, hright, hpos, hwithin⟩ : ∃ right,
        (if d.buffer.cursor = d.buffer.length then d.buffer.cursor - 1 else d.buffer.cursor) =
          right ∧ 0 < right ∧ right < d.buffer.length :=
      ⟨_, rfl, by split <;> omega⟩
    have hright? : (if d.buffer.cursor = d.buffer.length then minus? d.buffer.cursor 1
        else some d.buffer.cursor) = some right := by
      rw [← hright]
      split
      · exact minus?_of_le hback
      · rfl
    rw [hright, hright?]
    show (minus? right 1).bind _ = _
    rw [minus?_of_le hpos]
    show (swap? _ _ _).bind _ = _
    rw [Text.swap?_eq hpos hwithin]
    rfl

theorem toggle?_eq (h : d.buffer.Sound) (setting : Setting) (count : Nat) :
    d.toggle? setting count = some (d.toggle setting count) := by
  have hcursor := h.cursor
  rw [toggle?, toggle]
  dsimp only
  split
  · rfl
  · have hfirst : d.buffer.cursor ≤ min (d.buffer.cursor + count) d.buffer.length := by omega
    rw [slice?_of_le hfirst (Nat.min_le_right _ _), minus?_of_le hfirst]
    show (LineBuffer.delete? _ _).bind _ = _
    rw [LineBuffer.delete?_eq h.save.cursor]
    show (LineBuffer.insert? _ _).bind _ = _
    rw [LineBuffer.insert?_eq (h.save.delete _).cursor]
    show (LineBuffer.settle? _ _).bind _ = _
    rw [LineBuffer.settle?_eq]
    rfl

/-- **Plain commands** stay on the line, whatever their count. -/
theorem run?_eq (h : d.buffer.Sound) (setting : Setting) (command : Command) (count : Nat) :
    d.run? setting command count = some (d.run setting command count) := by
  cases command with
  | deleteCharOrEof =>
    rw [run?, run]
    split
    · rfl
    · rw [RangeAction.carryOut?_eq h]
      rfl
  | previousHistory => exact showLine?_eq setting _ d.keepDraft.history.previous.2
  | beginningOfHistory => exact showLine?_eq setting _ d.keepDraft.history.first.2
  | nextHistory => exact showLine?_eq setting _ (some d.history.next.2)
  | endOfHistory => exact showLine?_eq setting _ (some d.history.last.2)
  | yank => exact putBack?_eq h setting .yank count
  | viPasteAfter => exact putBack?_eq h setting .viPasteAfter count
  | viPasteBefore => exact putBack?_eq h setting .viPasteBefore count
  | undo =>
    rw [run?, run]
    cases d.buffer.undo? with
    | none => rfl
    | some b =>
      dsimp only
      rw [LineBuffer.settle?_eq]
      rfl
  | transposeChars => exact transpose?_eq h setting
  | viToggleCase => exact toggle?_eq h setting count
  | _ => rfl

end Desk

/-! ## Actions that hold the focus -/

namespace QuotedInsert

/-- Inserts the key, if there is one, and is done. -/
def carryOut? (q : QuotedInsert) (d : Desk) : Option (QuotedInsert × Reaction) :=
  match q.pending with
  | none => some (q, ⟨d, .proceed, none⟩)
  | some stroke => do
    let b ← d.buffer.save.insert? stroke.sequence
    some (⟨none, true⟩, ⟨d.withBuffer b, .proceed, none⟩)

theorem carryOut?_eq {d : Desk} (h : d.buffer.Sound) (q : QuotedInsert) :
    q.carryOut? d = some (q.apply d) := by
  rw [carryOut?, apply]
  cases q.pending with
  | none => rfl
  | some stroke =>
    dsimp only
    rw [LineBuffer.insert?_eq h.save.cursor]
    rfl

end QuotedInsert

namespace Search

/-- Looks for the term. -/
def look? (setting : Setting) (s : Search) (h : History) : Option (Search × History × Outcome) :=
  let h := h.setDirection s.direction
  if s.term = [] then some ({ s with failed := false }, h, .proceed)
  else do
    match ← h.search? s.term with
    | (h, some line) => some ({ s with matched := line, failed := false }, h, .proceed)
    | (h, none) => some ({ s with failed := true }, h, setting.bell)

/-- Looks for the term and shows what came of it. -/
def lookOn? (setting : Setting) (s : Search) (d : Desk) : Option (Search × Reaction) := do
  let (s, h, outcome) ← s.look? setting d.history
  some (s.shown { d with history := h } outcome)

/-- Carries the step out.  Only the steps that look for the term have a part that can fail. -/
def carryOut? (setting : Setting) (s : Search) (d : Desk) : Option (Search × Reaction) :=
  match s.step with
  | .older | .newer => s.lookOn? setting d
  | .shorten =>
    let s := { s with term := s.term.dropLast }
    if s.term = [] then
      some (shown { s with matched := [], failed := false }
        { d with history := d.history.restartSearch } .proceed)
    else s.lookOn? setting d
  | _ => some (s.apply setting d)

variable {d : Desk}

theorem lookOn?_eq (h : d.history.Sound) (setting : Setting) (s : Search) :
    s.lookOn? setting d = some (s.lookOn setting d) := by
  rw [lookOn?, look?, lookOn, look]
  dsimp only
  split
  · rfl
  · rw [History.search?_eq (h.setDirection s.direction)]
    rcases (d.history.setDirection s.direction).search s.term with ⟨h, _ | line⟩ <;> rfl

theorem carryOut?_eq (h : d.history.Sound) (setting : Setting) (s : Search) :
    s.carryOut? setting d = some (s.apply setting d) := by
  have hlook := lookOn?_eq h setting
  cases hstep : s.step with
  | older => rw [carryOut?, apply, hstep]; exact hlook s
  | newer => rw [carryOut?, apply, hstep]; exact hlook s
  | shorten =>
    rw [carryOut?, apply, hstep]
    dsimp only
    split
    · rfl
    · exact hlook _
  | _ => rw [carryOut?, hstep]

end Search

/-- Applies the action. -/
def Focus.carryOut? (setting : Setting) (f : Focus) (d : Desk) : Option (Focus × Reaction) :=
  match f with
  | quoted q => (q.carryOut? d).map fun (q, r) => (quoted q, r)
  | search s => (s.carryOut? setting d).map fun (s, r) => (search s, r)

theorem Focus.carryOut?_eq {d : Desk} (h : d.Sound) (setting : Setting) (f : Focus) :
    f.carryOut? setting d = some (f.apply setting d) := by
  cases f with
  | quoted q =>
    rw [carryOut?, QuotedInsert.carryOut?_eq h.buffer]
    rfl
  | search s =>
    rw [carryOut?, Search.carryOut?_eq h.history]
    rfl

/-! ## All actions -/

namespace Action

/-- Carries an action out. -/
def carryOut? (setting : Setting) (action : Action) (d : Desk) : Option (Action × Reaction) :=
  match action with
  | insert c => do
    let b ← d.buffer.save.insert? [c]
    some (action, d.edited b)
  | insertText text => do
    let b ← d.buffer.save.insert? text
    some (action, d.edited b)
  | replaceChar c =>
    let b := d.buffer
    if b.cursor < b.length then do
      let shorter ← b.save.delete? 1
      let replaced ← shorter.insert? [c]
      some (action, d.edited (replaced.place b.cursor))
    else some (action, d.edited b)
  | plain command count => (d.run? setting command count).map (action, ·)
  | range r => (r.carryOut? setting.commandMode d).map fun d => (action, ⟨d, .proceed, none⟩)
  | focus f => (f.carryOut? setting d).map fun (f, r) => (focus f, r)

/-- **No part of an action is asked for what is not there.** -/
theorem carryOut?_eq {d : Desk} (h : d.Sound) (setting : Setting) (action : Action) :
    action.carryOut? setting d = some (action.apply setting d) := by
  have hcursor := h.buffer.save.cursor
  cases action with
  | insert c =>
    rw [carryOut?, LineBuffer.insert?_eq hcursor]
    rfl
  | insertText text =>
    rw [carryOut?, LineBuffer.insert?_eq hcursor]
    rfl
  | replaceChar c =>
    rw [carryOut?, apply]
    split
    · rw [LineBuffer.delete?_eq hcursor]
      show (LineBuffer.insert? _ _).bind _ = _
      rw [LineBuffer.insert?_eq (h.buffer.save.delete 1).cursor]
      rfl
    · rfl
  | plain command count =>
    rw [carryOut?, Desk.run?_eq h.buffer]
    rfl
  | range r =>
    rw [carryOut?, RangeAction.carryOut?_eq h.buffer]
    rfl
  | focus f =>
    rw [carryOut?, Focus.carryOut?_eq h]
    rfl

end Action

end PromptLine
