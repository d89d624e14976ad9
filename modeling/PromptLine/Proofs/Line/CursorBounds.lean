import PromptLine.Proofs.Line.Motions
import PromptLine.Proofs.Line.Ranges

/-!
# Where the cursor can be

Two things are to be known about the cursor of a line.  It is within the line, and so is the cursor
of every state that undoing can go back to: this is `Sound`, and no operation of a buffer breaks it.
Outside of text entry the cursor has to stand on a character as well.  This is `OnCharacter`, which
many operations do break; it is `settle` that restores it.
-/

namespace PromptLine

namespace LineBuffer

/-- The cursor is within the line, and was so in every saved state. -/
structure Sound (b : LineBuffer) : Prop where
  cursor : b.cursor ≤ b.length
  saved : ∀ state ∈ b.saved, state.2 ≤ state.1.length

/-- The cursor stands on a character, unless the line is empty. -/
def OnCharacter (b : LineBuffer) : Prop := b.text ≠ [] → b.cursor < b.length

variable {b : LineBuffer}

theorem sound_empty (masked : Bool) : (empty masked).Sound :=
  ⟨Nat.le_refl 0, fun _ hstate => nomatch hstate⟩

/-! ## Operations keep the cursor within the line -/

theorem Sound.place (h : b.Sound) (position : Nat) : (b.place position).Sound :=
  ⟨b.cursor_place_le position, h.saved⟩

theorem Sound.move (h : b.Sound) (distance : Int) : (b.move distance).Sound := h.place _

theorem Sound.insert (h : b.Sound) (text : Text) : (b.insert text).Sound := by
  refine ⟨?_, h.saved⟩
  rw [length_insert]
  exact Nat.add_le_add_right h.cursor text.length

theorem Sound.save (h : b.Sound) : b.save.Sound := by
  refine ⟨h.cursor, fun state hstate => ?_⟩
  rcases List.mem_cons.mp (List.mem_of_mem_take hstate) with rfl | hsaved
  · exact h.cursor
  · exact h.saved state hsaved

/-- The text before a cursor that is within the line. -/
theorem length_take_cursor (h : b.cursor ≤ b.length) (back : Nat) :
    (b.text.take (b.cursor - back)).length = b.cursor - back := by
  rw [List.length_take]
  exact Nat.min_eq_left (Nat.le_trans (Nat.sub_le _ _) h)

theorem Sound.delete (h : b.Sound) (distance : Int) : (b.delete distance).Sound := by
  have hbefore := length_take_cursor h.cursor
  rw [LineBuffer.delete]
  split
  · refine ⟨?_, h.saved⟩
    change b.cursor ≤ (b.text.take b.cursor ++ _).length
    rw [List.length_append, ← Nat.sub_zero b.cursor, hbefore 0]
    exact Nat.le_add_right _ _
  · refine ⟨?_, h.saved⟩
    change b.cursor - _ ≤ (b.text.take (b.cursor - _) ++ _).length
    rw [List.length_append, hbefore]
    exact Nat.le_add_right _ _

theorem Sound.replace (h : b.Sound) (text : Text) : (b.replace text).Sound :=
  ⟨Nat.le_refl _, h.saved⟩

theorem Sound.undo {after : LineBuffer} (h : b.Sound) (hundo : b.undo? = some after) :
    after.Sound := by
  rw [undo?] at hundo
  split at hundo
  · cases hundo
  · next text cursor saved hsaved =>
    cases hundo
    exact ⟨h.saved (text, cursor) (hsaved ▸ List.mem_cons_self),
      fun state hstate => h.saved state (hsaved ▸ List.mem_cons_of_mem _ hstate)⟩

theorem Sound.settle (h : b.Sound) (commandMode : Bool) : (b.settle commandMode).Sound := by
  rw [LineBuffer.settle]
  split
  · exact h.place _
  · exact h

/-! ## All operations -/

/-- The ways to change a buffer. -/
inductive Operation
  | move (distance : Int)
  | setCursor (position : UInt64)
  | insert (text : Text)
  | delete (distance : Int)
  | replace (text : Text)
  | clear
  | save
  | undo
  deriving DecidableEq, Repr

/-- The buffer after an operation.  Where nothing is saved undoing changes nothing. -/
def perform (b : LineBuffer) : Operation → LineBuffer
  | .move distance => b.move distance
  | .setCursor position => b.setCursor position
  | .insert text => b.insert text
  | .delete distance => b.delete distance
  | .replace text => b.replace text
  | .clear => b.clear
  | .save => b.save
  | .undo => b.undo?.getD b

/-- **No operation takes the cursor out of the line.** -/
theorem Sound.perform (h : b.Sound) (operation : Operation) : (b.perform operation).Sound := by
  cases operation with
  | move distance => exact h.move distance
  | setCursor position => exact h.move _
  | insert text => exact h.insert text
  | delete distance => exact h.delete distance
  | replace text => exact h.replace text
  | clear => exact h.replace []
  | save => exact h.save
  | undo =>
    show (b.undo?.getD b).Sound
    cases hundo : b.undo? with
    | none => exact h
    | some after => exact h.undo hundo

theorem Sound.foldl_perform (h : b.Sound) (operations : List Operation) :
    (operations.foldl LineBuffer.perform b).Sound := by
  induction operations generalizing b with
  | nil => exact h
  | cons operation rest ih => exact ih (h.perform operation)

/-! ## Standing on a character -/

theorem length_pos_iff (b : LineBuffer) : 0 < b.length ↔ b.text ≠ [] :=
  List.length_pos_iff

/-- **Settling the cursor for command mode** puts it on a character. -/
theorem onCharacter_settle (b : LineBuffer) : (b.settle true).OnCharacter := by
  intro hne
  rw [text_settle] at hne
  have hpos := b.length_pos_iff.mpr hne
  rw [LineBuffer.settle]
  split
  · change min (b.length - 1) b.length < b.length
    omega
  · next hwithin =>
    by_contra hpast
    exact hwithin ⟨rfl, hpos, Nat.le_of_not_lt hpast⟩

theorem onCharacter_clear (b : LineBuffer) : b.clear.OnCharacter := fun hne => absurd rfl hne

/-- A step back from the end of the line, or from before it. -/
theorem onCharacter_move_back (h : b.cursor ≤ b.length) : (b.move (-1)).OnCharacter := by
  intro hne
  have hpos := b.length_pos_iff.mpr hne
  change min ((b.cursor : Int) + -1).toNat b.length < b.length
  omega

/-- Whatever is put in behind a character, or into an empty line, the step back leads onto a
character. -/
theorem onCharacter_insert_back (h : b.Sound) (text : Text) :
    ((b.insert text).move (-1)).OnCharacter :=
  onCharacter_move_back (h.insert text).cursor

end LineBuffer

namespace Desk

variable {d : Desk}

/-! ## The same for desks -/

/-- **A range operation keeps the cursor within the line.** -/
theorem sound_applyRange (h : d.buffer.Sound) (commandMode : Bool) (operation : Status)
    (start target : Nat) : (d.applyRange commandMode operation start target).buffer.Sound := by
  unfold applyRange
  refine LineBuffer.Sound.settle ?_ commandMode
  dsimp only
  generalize min start d.buffer.length = start, min target d.buffer.length = target
  have hcut : (d.cut start target).buffer.Sound := by
    rw [cut, withBuffer, buffer_keep]
    exact (h.save.place _).delete _
  have hcase :
      (d.changeCase commandMode operation (min start target) (max start target)).buffer.Sound := by
    rw [changeCase]
    dsimp only [withBuffer]
    have hchanged := ((h.save.place (min start target)).delete
      ((max start target - min start target : Nat) : Int)).insert
        (recaseText operation (d.buffer.followsWord (min start target))
          (d.buffer.slice (min start target) (max start target)))
    split
    · exact hchanged.place _
    · exact hchanged
  have hplace : ∀ after : Desk, (after.withBuffer (d.buffer.place target)).buffer.Sound :=
    fun _ => h.place target
  cases operation with
  | delete => dsimp only; split <;> assumption
  | change => dsimp only; split <;> assumption
  | yank =>
    refine LineBuffer.Sound.place ?_ _
    split
    · exact h
    · rw [buffer_keep]
      exact h
  | upCase => dsimp only; split <;> assumption
  | downCase => dsimp only; split <;> assumption
  | capitalize => dsimp only; split <;> assumption
  | _ => exact h.place _

/-- In command mode a range operation ends on a character. -/
theorem onCharacter_applyRange (d : Desk) (operation : Status) (start target : Nat) :
    (d.applyRange true operation start target).buffer.OnCharacter := by
  unfold applyRange
  exact LineBuffer.onCharacter_settle _

end Desk

end PromptLine
