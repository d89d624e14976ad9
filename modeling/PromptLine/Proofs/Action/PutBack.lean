import PromptLine.Proofs.Action.SavedStates
import PromptLine.Proofs.Line.RangeOperations

/-!
# Putting back what was taken away

A command that puts text back does so at the cursor, or one character behind it, and where the
cursor is after a deletion depends on the mode: at the place where the range was, unless that is the
end of the line and command mode takes it back onto the last character.  So there is always a
command that goes where the range was.  `Removed` is what is known of the desk in between, whatever
the motion was and whatever could be put back before.
-/

namespace PromptLine

namespace Command

/-- The range that a command takes away by itself, if it is one that does.  One of them ends the
input instead on an empty line, where there is nothing to take away. -/
def removal? (command : Command) (count : Nat) : Option RangeAction :=
  if command = .deleteCharOrEof then some ⟨.deleteChar, .forwardChar, .delete, 1⟩
  else if command.ownOperation? = some .delete then
    command.motion?.map fun motion => ⟨command, motion, .delete, max count 1⟩
  else none

end Command

namespace LineBuffer

/-- The range between two positions, as far as the line goes. -/
def range (b : LineBuffer) (ends : Nat × Nat) : Nat × Nat :=
  (min (min ends.1 ends.2) b.length, min (max ends.1 ends.2) b.length)

/-- A range that is put in where it is missing makes the line whole. -/
theorem insert_slice {b c : LineBuffer} {first last : Nat} (hproper : first ≤ last)
    (hwithin : last ≤ b.length) (htext : c.text = b.text.take first ++ b.text.drop last)
    (hcursor : c.cursor = first) :
    (c.insert (b.slice first last)).text = b.text ∧
      (c.insert (b.slice first last)).cursor = last := by
  have hlength : (b.text.take first).length = first :=
    List.length_take_of_le (Nat.le_trans hproper hwithin)
  rw [insert, before, after, htext, hcursor, List.take_left' hlength, List.drop_left' hlength,
    length_slice hwithin]
  exact ⟨take_append_slice_append_drop b hproper, Nat.add_sub_cancel' hproper⟩

end LineBuffer

namespace Desk

/-! ## What a deletion leaves -/

/-- A desk from which a range was taken away, and on which its text is at hand. -/
structure Removed (commandMode : Bool) (first last : Nat) (d after : Desk) : Prop where
  proper : first < last
  within : last ≤ d.buffer.length
  text : after.buffer.text = d.buffer.text.take first ++ d.buffer.text.drop last
  cursor :
    after.buffer.cursor = LineBuffer.settledCursor commandMode after.buffer.length first
  kept : after.kills.current? = some (d.buffer.slice first last)

variable {d after : Desk} {commandMode : Bool} {first last : Nat}

theorem Removed.length (h : Removed commandMode first last d after) :
    after.buffer.length = first + (d.buffer.length - last) := by
  have hfirst : first ≤ d.buffer.text.length := Nat.le_trans (Nat.le_of_lt h.proper) h.within
  rw [LineBuffer.length, h.text, List.length_append, List.length_take_of_le hfirst,
    List.length_drop]
  rfl

/-- A deletion between two positions takes away the range between them. -/
theorem removed_applyRange (commandMode : Bool) {ends : Nat × Nat}
    (hmasked : d.buffer.masked = false) (hrange : d.buffer.range ends = (first, last))
    (hproper : first < last) :
    Removed commandMode first last d (d.applyRange commandMode .delete ends.1 ends.2) := by
  obtain ⟨start, target⟩ := ends
  obtain ⟨hfirst, hlast⟩ := Prod.mk.inj hrange
  dsimp only at hfirst hlast
  rw [← applyRange_min]
  rw [applyRange_of_ne commandMode .delete (by omega) (Nat.min_le_right _ _) (Nat.min_le_right _ _)
    (show _ = first by omega) (show _ = last by omega), settle_eq]
  have hwithin : last ≤ d.buffer.length := by omega
  refine ⟨hproper, hwithin, ?_, rfl, ?_⟩
  · change _ ++ [] ++ _ = _
    rw [List.append_nil]
  · change KillRing.current? (if _ then _ else _) = _
    rw [if_pos ⟨rfl, hmasked⟩]
    exact KillRing.current?_add (LineBuffer.slice_ne_nil hproper hwithin)

/-! ## The commands that put text back -/

section Back

variable (setting : Setting) (command : Command)

/-- Where a command puts text in. -/
def opened (command : Command) (b : LineBuffer) : LineBuffer :=
  if command = .viPasteAfter ∧ 0 < b.length then b.save.move 1 else b.save

theorem text_opened (b : LineBuffer) : (opened command b).text = b.text := by
  rw [opened]
  split <;> rfl

theorem putBack_of_kept {text : Text} (h : d.kills.current? = some text) :
    d.putBack setting command 1 =
      d.edited
        (if command = .yank then (opened command d.buffer).insert text
          else ((opened command d.buffer).insert text).move (-1)) := by
  have honce : (List.replicate 1 text).flatten = text := List.append_nil text
  rw [putBack, h]
  dsimp only
  rw [honce]
  rfl

/-- **The line is as it was** if the range is put in where it was. -/
theorem Removed.putBack (h : Removed commandMode first last d after)
    (hthere : (opened command after.buffer).cursor = first) :
    let back := after.putBack setting command 1
    back.outcome = .proceed ∧ back.desk.buffer.text = d.buffer.text ∧
      back.desk.buffer.cursor = if command = .yank then last else last - 1 := by
  intro back
  obtain ⟨hwhole, hcursor⟩ := LineBuffer.insert_slice (Nat.le_of_lt h.proper) h.within
    ((text_opened command after.buffer).trans h.text) hthere
  have hback : back = _ := putBack_of_kept setting command h.kept
  rw [hback]
  generalize (opened command after.buffer).insert _ = whole at hwhole hcursor
  split
  · exact ⟨rfl, hwhole, hcursor⟩
  · refine ⟨rfl, (LineBuffer.text_move whole (-1)).trans hwhole, ?_⟩
    change min ((whole.cursor : Int) + -1).toNat whole.text.length = last - 1
    have hwithin : last ≤ d.buffer.text.length := h.within
    rw [hcursor, hwhole]
    omega

/-- While text is typed the cursor is where the range was. -/
theorem Removed.yank (h : Removed false first last d after) :
    let back := after.putBack setting .yank 1
    back.outcome = .proceed ∧ back.desk.buffer.text = d.buffer.text ∧
      back.desk.buffer.cursor = last :=
  h.putBack setting .yank h.cursor

/-- In command mode, too, if there is a character behind the range. -/
theorem Removed.pasteBefore (h : Removed true first last d after)
    (hmore : last < d.buffer.length) :
    let back := after.putBack setting .viPasteBefore 1
    back.outcome = .proceed ∧ back.desk.buffer.text = d.buffer.text ∧
      back.desk.buffer.cursor = last - 1 := by
  have hlength := h.length
  have hcursor := h.cursor
  rw [LineBuffer.settledCursor, if_neg (by omega)] at hcursor
  exact h.putBack setting .viPasteBefore hcursor

/-- At the end of the line it is one character before that, or the line is empty. -/
theorem Removed.pasteAfter (h : Removed true first last d after)
    (hend : last = d.buffer.length) :
    let back := after.putBack setting .viPasteAfter 1
    back.outcome = .proceed ∧ back.desk.buffer.text = d.buffer.text ∧
      back.desk.buffer.cursor = last - 1 := by
  have hlength := h.length
  have hcursor := h.cursor
  refine h.putBack setting .viPasteAfter ?_
  rw [LineBuffer.settledCursor] at hcursor
  rw [opened]
  split
  · next hsome =>
    rw [if_pos ⟨rfl, hsome.2, by omega⟩] at hcursor
    change min ((after.buffer.cursor : Int) + 1).toNat after.buffer.length = first
    omega
  · next hnone =>
    have hempty : ¬0 < after.buffer.length := fun hsome => hnone ⟨rfl, hsome⟩
    rw [if_neg fun hsome => hempty hsome.2.1] at hcursor
    exact hcursor

end Back

/-! ## The commands that take text away -/

theorem apply_of_delete (commandMode : Bool) {r : RangeAction} (h : r.operation = .delete) :
    r.apply commandMode d =
      d.applyRange commandMode .delete (r.ends d.buffer).1 (r.ends d.buffer).2 := by
  rw [RangeAction.apply, h]
  dsimp only
  exact if_neg fun hcopies => by cases hcopies.2

theorem ofCommand_of_delete {command : Command} {motion : Motion}
    (hown : command.ownOperation? = some .delete) (hmotion : command.motion? = some motion)
    (operation : Status) (count : Nat) :
    Action.ofCommand command operation count =
      .range ⟨command, motion, .delete, max count 1⟩ := by
  cases command with
  | deleteChar | backwardDeleteChar | killLine | backwardKillLine | killWholeLine | killWord
  | backwardKillWord | unixWordRubout | viDeleteChar | viBackwardDeleteChar | viDeleteToEnd =>
    cases hmotion
    rfl
  | _ => cases hown

/-- **A command that takes text away** does so whatever operator waits for it. -/
theorem removed_after {setting : Setting} {command : Command} {count : Nat} {r : RangeAction}
    (h : command.removal? count = some r) (hmasked : d.buffer.masked = false)
    (hrange : d.buffer.range (r.ends d.buffer) = (first, last)) (hproper : first < last)
    (operation : Status) :
    Removed setting.commandMode first last d
      (d.after setting (.ofCommand command operation count)) := by
  have hremoved := removed_applyRange setting.commandMode hmasked hrange hproper
  rw [Command.removal?] at h
  split at h
  · next hchar =>
    subst hchar
    cases h
    have hnonempty : d.buffer.length ≠ 0 := by
      have hwithin := hremoved.within
      omega
    rw [← apply_of_delete setting.commandMode rfl] at hremoved
    change Removed setting.commandMode first last d
      (d.run setting .deleteCharOrEof (max count 1)).desk
    rwa [run, if_neg hnonempty]
  · split at h
    · next hown =>
      obtain ⟨motion, hmotion, rfl⟩ := Option.map_eq_some_iff.mp h
      rw [← apply_of_delete setting.commandMode rfl] at hremoved
      rw [ofCommand_of_delete hown hmotion]
      exact hremoved
    · cases h

end Desk

end PromptLine
