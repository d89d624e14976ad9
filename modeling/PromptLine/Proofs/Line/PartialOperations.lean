import PromptLine.Proofs.Line.CursorBounds

/-!
# Operations that have a domain

Taking and dropping are total: they stop at the end of a text, wherever they are told to go.  On a
line that is stored as an array the same things are done by operations that have a domain.  A
character is looked up at an index, a range is copied or drained, a tail is split off, two
characters are swapped, and positions are subtracted; asked for something that is not there, each of
these ends the program.

So the operations of a buffer, and what is done to a range of its text, are spelled out once more in
this module, out of parts that answer `none` outside their domain.  The names of such operations end
in a question mark.  The main statements say that they are never asked for anything that is not
there, and do what the total ones do, as long as the cursor is within the line: `insert?_eq` and
`delete?_eq` for a buffer, and `applyRange?_eq` for a range, wherever its ends are computed to be.
-/

namespace PromptLine

namespace Text

/-! ## Parts that can fail -/

/-- The position some steps before another one.  Fails if it would lie before the text. -/
def minus? (position steps : Nat) : Option Nat :=
  if steps ≤ position then some (position - steps) else none

/-- The text from `first` up to but not including `last`.  Fails unless they are the ends of a range
of the text. -/
def slice? (text : Text) (first last : Nat) : Option Text :=
  if first ≤ last ∧ last ≤ text.length then some ((text.take last).drop first) else none

/-- The text without what stands from `first` up to but not including `last`.  Fails unless they are
the ends of a range of the text. -/
def drain? (text : Text) (first last : Nat) : Option Text :=
  if first ≤ last ∧ last ≤ text.length then some (text.take first ++ text.drop last) else none

/-- The text before a position and the tail from it on.  Fails behind the end of the text. -/
def splitOff? (text : Text) (position : Nat) : Option (Text × Text) :=
  if position ≤ text.length then some (text.splitAt position) else none

/-- Exchanges the characters at two indices.  Fails if there is no character at one of them. -/
def swap? (text : Text) (left right : Nat) : Option Text := do
  let a ← text[left]?
  let b ← text[right]?
  some ((text.set left b).set right a)

theorem minus?_of_le {position steps : Nat} (h : steps ≤ position) :
    minus? position steps = some (position - steps) := if_pos h

theorem slice?_of_le {text : Text} {first last : Nat} (hfirst : first ≤ last)
    (hlast : last ≤ text.length) : slice? text first last = some ((text.take last).drop first) :=
  if_pos ⟨hfirst, hlast⟩

theorem drain?_of_le {text : Text} {first last : Nat} (hfirst : first ≤ last)
    (hlast : last ≤ text.length) :
    drain? text first last = some (text.take first ++ text.drop last) :=
  if_pos ⟨hfirst, hlast⟩

theorem splitOff?_of_le {text : Text} {position : Nat} (h : position ≤ text.length) :
    splitOff? text position = some (text.take position, text.drop position) := by
  rw [splitOff?, if_pos h, List.splitAt_eq]

end Text

open Text

namespace LineBuffer

variable {b : LineBuffer}

/-! ## Operations of a buffer -/

/-- Inserts at the cursor: the tail is split off there, and put back behind the new text. -/
def insert? (b : LineBuffer) (text : Text) : Option LineBuffer := do
  let (front, tail) ← splitOff? b.text b.cursor
  some { b with text := front ++ text ++ tail, cursor := b.cursor + text.length }

/-- Drains the range behind the cursor, or the one before it. -/
def delete? (b : LineBuffer) (distance : Int) : Option LineBuffer :=
  let count := distance.natAbs
  if 0 ≤ distance then do
    let text ← drain? b.text b.cursor (min (b.cursor + count) b.length)
    some { b with text := text }
  else do
    let text ← drain? b.text (b.cursor - count) b.cursor
    some { b with text := text, cursor := b.cursor - count }

/-- Whether the character before a position belongs to a word, looked up at its index. -/
def followsWord? (b : LineBuffer) (position : Nat) : Option Bool :=
  if 0 < position then do
    let index ← minus? position 1
    let c ← b.text[index]?
    some (Unicode.isAlphanumeric c)
  else some false

/-- In command mode, takes the cursor back from behind the last character. -/
def settle? (commandMode : Bool) (b : LineBuffer) : Option LineBuffer :=
  if commandMode = true ∧ 0 < b.length ∧ b.length ≤ b.cursor then do
    let last ← minus? b.length 1
    some (b.place last)
  else some b

/-- **Inserting** splits the line at its cursor only. -/
theorem insert?_eq (h : b.cursor ≤ b.length) (text : Text) :
    b.insert? text = some (b.insert text) := by
  rw [insert?, splitOff?_of_le h]
  rfl

/-- Behind the end there is nothing to split off. -/
example : (⟨['a'], 2, [], false⟩ : LineBuffer).insert? ['b'] = none := rfl

/-- **Deleting** drains ranges of the line only. -/
theorem delete?_eq (h : b.cursor ≤ b.length) (distance : Int) :
    b.delete? distance = some (b.delete distance) := by
  rw [delete?, delete]
  split
  · have hfirst : b.cursor ≤ min (b.cursor + distance.natAbs) b.length := by omega
    rw [drain?_of_le hfirst (Nat.min_le_right _ _), eraseAfter, after, List.drop_drop]
    show some _ = some _
    rcases Nat.le_total (b.cursor + distance.natAbs) b.length with hwithin | hpast
    · rw [Nat.min_eq_left hwithin]
      rfl
    · rw [Nat.min_eq_right hpast, List.drop_eq_nil_of_le hpast, length, List.drop_length]
      rfl
  · rw [drain?_of_le (Nat.sub_le _ _) h]
    rfl

theorem followsWord?_eq {position : Nat} (h : position ≤ b.length) :
    b.followsWord? position = some (b.followsWord position) := by
  rw [followsWord?, followsWord, List.getLast?_take]
  rcases Nat.eq_zero_or_pos position with rfl | hpos
  · rfl
  · have hindex : position - 1 < b.text.length := Nat.lt_of_lt_of_le (Nat.sub_one_lt_of_lt hpos) h
    rw [if_pos hpos, if_neg (Nat.ne_of_gt hpos), minus?_of_le hpos]
    simp [List.getElem?_eq_getElem hindex]

theorem settle?_eq (commandMode : Bool) (b : LineBuffer) :
    b.settle? commandMode = some (b.settle commandMode) := by
  rw [settle?, settle]
  split
  · next hpast =>
    rw [minus?_of_le hpast.2.1]
    rfl
  · rfl

end LineBuffer

namespace Desk

variable {d : Desk}

/-! ## Operations on a range -/

/-- Settles the cursor of the line. -/
def settle? (commandMode : Bool) (d : Desk) : Option Desk := do
  let b ← d.buffer.settle? commandMode
  some (d.withBuffer b)

/-- Copies a range to the kill ring, unless the line is not to be seen. -/
def keep? (d : Desk) (first last : Nat) : Option Desk :=
  if d.buffer.masked then some d
  else do
    let text ← slice? d.buffer.text first last
    some { d with kills := d.kills.add text }

/-- Takes the text between two positions away, keeping a copy. -/
def cut? (d : Desk) (start target : Nat) : Option Desk := do
  let d ← d.keep? (min start target) (max start target)
  let b ← (d.buffer.save.place start).delete? (target - start)
  some (d.withBuffer b)

/-- Puts the text between two positions into another case. -/
def changeCase? (commandMode : Bool) (operation : Status) (d : Desk) (first last : Nat) :
    Option Desk := do
  let b := d.buffer
  let text ← slice? b.text first last
  let inWord ← b.followsWord? first
  let count ← minus? last first
  let b ← (b.save.place first).delete? count
  let b ← b.insert? (recaseText operation inWord text)
  some (d.withBuffer (if commandMode then b.place first else b))

/-- Does an operation to the text between two positions. -/
def applyRange? (commandMode : Bool) (operation : Status) (start target : Nat) (d : Desk) :
    Option Desk := do
  let start := min start d.buffer.length
  let target := min target d.buffer.length
  let first := min start target
  let last := max start target
  let d ←
    match operation with
    | .delete | .change => if first = last then some d else d.cut? start target
    | .yank => do
      let d ← if first = last then some d else d.keep? first last
      some (d.withBuffer (d.buffer.place first))
    | .upCase | .downCase | .capitalize =>
      if first = last then some d else d.changeCase? commandMode operation first last
    | _ => some (d.withBuffer (d.buffer.place target))
  d.settle? commandMode

section Ranges

variable {start target first last : Nat}

theorem settle?_eq (commandMode : Bool) (d : Desk) :
    d.settle? commandMode = some (d.settle commandMode) := by
  rw [settle?, LineBuffer.settle?_eq]
  rfl

theorem keep?_eq (hfirst : first ≤ last) (hlast : last ≤ d.buffer.length) :
    d.keep? first last = some (d.keep first last) := by
  rw [keep?, keep]
  split
  · rfl
  · rw [slice?_of_le hfirst hlast]
    rfl

theorem cut?_eq (h : d.buffer.Sound) (hstart : start ≤ d.buffer.length)
    (htarget : target ≤ d.buffer.length) : d.cut? start target = some (d.cut start target) := by
  have hlast : max start target ≤ d.buffer.length := Nat.max_le.mpr ⟨hstart, htarget⟩
  have hkept : (d.keep (min start target) (max start target)).buffer.Sound := by
    rw [buffer_keep]
    exact h
  rw [cut?, keep?_eq (by omega) hlast]
  show (LineBuffer.delete? _ _).bind _ = _
  rw [LineBuffer.delete?_eq (hkept.save.place start).cursor]
  rfl

theorem changeCase?_eq (h : d.buffer.Sound) (commandMode : Bool) (operation : Status)
    (hfirst : first ≤ last) (hlast : last ≤ d.buffer.length) :
    d.changeCase? commandMode operation first last =
      some (d.changeCase commandMode operation first last) := by
  have hplaced := h.save.place first
  rw [changeCase?, slice?_of_le hfirst hlast,
    LineBuffer.followsWord?_eq (Nat.le_trans hfirst hlast), minus?_of_le hfirst]
  show (LineBuffer.delete? _ _).bind _ = _
  rw [LineBuffer.delete?_eq hplaced.cursor]
  show (LineBuffer.insert? _ _).bind _ = _
  rw [LineBuffer.insert?_eq (hplaced.delete _).cursor]
  rfl

/-- **What is done to a range is done within the line**, wherever its ends are computed to be. -/
theorem applyRange?_eq (h : d.buffer.Sound) (commandMode : Bool) (operation : Status)
    (start target : Nat) :
    d.applyRange? commandMode operation start target =
      some (d.applyRange commandMode operation start target) := by
  have hstart : min start d.buffer.length ≤ d.buffer.length := Nat.min_le_right _ _
  have htarget : min target d.buffer.length ≤ d.buffer.length := Nat.min_le_right _ _
  unfold applyRange? applyRange
  dsimp only
  generalize min start d.buffer.length = start,
    min target d.buffer.length = target at hstart htarget
  have hfirst : min start target ≤ max start target := by omega
  have hlast : max start target ≤ d.buffer.length := Nat.max_le.mpr ⟨hstart, htarget⟩
  rw [cut?_eq h hstart htarget, keep?_eq hfirst hlast,
    changeCase?_eq h commandMode operation hfirst hlast]
  cases operation with
  | delete => dsimp only; split <;> exact settle?_eq commandMode _
  | change => dsimp only; split <;> exact settle?_eq commandMode _
  | yank => dsimp only; split <;> exact settle?_eq commandMode _
  | upCase => dsimp only; split <;> exact settle?_eq commandMode _
  | downCase => dsimp only; split <;> exact settle?_eq commandMode _
  | capitalize => dsimp only; split <;> exact settle?_eq commandMode _
  | _ => exact settle?_eq commandMode _

end Ranges

end Desk

end PromptLine
