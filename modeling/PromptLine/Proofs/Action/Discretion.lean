import PromptLine.Proofs.Action.SavedStates

/-!
# What every action leaves alone

Actions change the line, and some of them fetch from the history or search it.  None of them changes
which entries the history has: that is left to the end of a line.  None turns a line that is not to
be seen into one that is.  And while the line is not to be seen nothing is copied from it, so the
kill ring stays as it is, although it can still be put into the line.

`Spares` says this of two desks, and `spares_after` of the desks before and after any action.
-/

namespace PromptLine

namespace LineBuffer

@[simp] theorem masked_delete (b : LineBuffer) (distance : Int) :
    (b.delete distance).masked = b.masked := by
  rw [delete]
  split <;> rfl

@[simp] theorem masked_settle (commandMode : Bool) (b : LineBuffer) :
    (b.settle commandMode).masked = b.masked := by
  rw [settle]
  split <;> rfl

theorem masked_of_undo? {b after : LineBuffer} (h : b.undo? = some after) :
    after.masked = b.masked := by
  rw [undo?] at h
  split at h
  · cases h
  · cases h
    rfl

end LineBuffer

namespace History

/-- The entries of a history and its limit are the same as before. -/
def Unchanged (h after : History) : Prop := after.entries = h.entries ∧ after.limit = h.limit

variable (h : History)

theorem unchanged_previous : h.Unchanged h.previous.1 := by
  rw [previous]
  split <;> exact ⟨rfl, rfl⟩

theorem unchanged_setDirection (direction : Direction) :
    h.Unchanged (h.setDirection direction) := by
  rw [setDirection]
  split <;> exact ⟨rfl, rfl⟩

theorem unchanged_search (term : Text) : h.Unchanged (h.search term).1 := by
  rw [search]
  split <;> exact ⟨rfl, rfl⟩

end History

namespace Desk

/-- The second desk comes from the first without a change to the entries, and without a copy of what
is not to be seen. -/
structure Spares (d after : Desk) : Prop where
  masked : after.buffer.masked = d.buffer.masked
  entries : after.history.entries = d.history.entries
  limit : after.history.limit = d.history.limit
  kills : d.buffer.masked = true → after.kills = d.kills

variable {d middle after : Desk} {setting : Setting}

theorem Spares.refl (d : Desk) : d.Spares d := ⟨rfl, rfl, rfl, fun _ => rfl⟩

theorem Spares.trans (h : d.Spares middle) (h' : middle.Spares after) : d.Spares after :=
  ⟨h'.masked.trans h.masked, h'.entries.trans h.entries, h'.limit.trans h.limit,
    fun hmasked => (h'.kills (h.masked.trans hmasked)).trans (h.kills hmasked)⟩

/-- Another line may be put in, of the same kind. -/
theorem Spares.withBuffer (h : d.Spares after) {b : LineBuffer}
    (hb : b.masked = after.buffer.masked) : d.Spares (after.withBuffer b) :=
  ⟨hb.trans h.masked, h.entries, h.limit, h.kills⟩

/-- The history may be gone through and searched. -/
theorem Spares.withHistory (h : d.Spares after) (history : History)
    (hhistory : after.history.Unchanged history) : d.Spares { after with history := history } :=
  ⟨h.masked, hhistory.1.trans h.entries, hhistory.2.trans h.limit, h.kills⟩

theorem Spares.settle (h : d.Spares after) (commandMode : Bool) :
    d.Spares (after.settle commandMode) :=
  h.withBuffer (after.buffer.masked_settle commandMode)

theorem Spares.unless (h : d.Spares after) (condition : Prop) [Decidable condition] :
    d.Spares (if condition then d else after) := by
  split
  · exact .refl d
  · exact h

/-! ## Ranges -/

/-- Nothing is copied from a line that is not to be seen. -/
theorem spares_keep (d : Desk) (first last : Nat) : d.Spares (d.keep first last) := by
  cases hmasked : d.buffer.masked with
  | true =>
    rw [keep, if_pos hmasked]
    exact .refl d
  | false =>
    rw [keep, if_neg (Bool.eq_false_iff.mp hmasked)]
    exact ⟨rfl, rfl, rfl, fun htrue => absurd (hmasked.symm.trans htrue) Bool.false_ne_true⟩

theorem spares_cut (d : Desk) (start target : Nat) : d.Spares (d.cut start target) :=
  (d.spares_keep _ _).withBuffer (LineBuffer.masked_delete _ _)

theorem spares_changeCase (d : Desk) (commandMode : Bool) (operation : Status) (first last : Nat) :
    d.Spares (d.changeCase commandMode operation first last) := by
  refine (Spares.refl d).withBuffer ?_
  cases commandMode <;> exact LineBuffer.masked_delete _ _

theorem spares_applyRange (d : Desk) (commandMode : Bool) (operation : Status)
    (start target : Nat) : d.Spares (d.applyRange commandMode operation start target) := by
  unfold applyRange
  refine Spares.settle ?_ commandMode
  have hcut := d.spares_cut (min start d.buffer.length) (min target d.buffer.length)
  have hcase := d.spares_changeCase commandMode operation
    (min (min start d.buffer.length) (min target d.buffer.length))
    (max (min start d.buffer.length) (min target d.buffer.length))
  cases operation with
  | delete => exact hcut.unless _
  | change => exact hcut.unless _
  | yank => exact ((d.spares_keep _ _).unless _).withBuffer rfl
  | upCase => exact hcase.unless _
  | downCase => exact hcase.unless _
  | capitalize => exact hcase.unless _
  | _ => exact (Spares.refl d).withBuffer rfl

theorem spares_range (d : Desk) (commandMode : Bool) (r : RangeAction) :
    d.Spares (r.apply commandMode d) := by
  have hrange := d.spares_applyRange commandMode r.operation (r.ends d.buffer).1
    (r.ends d.buffer).2
  rw [RangeAction.apply]
  dsimp only
  split
  · refine Spares.settle ?_ commandMode
    exact hrange.withBuffer rfl
  · exact hrange

/-! ## Plain commands -/

theorem spares_keepDraft (d : Desk) : d.Spares d.keepDraft := by
  rw [keepDraft]
  split
  · exact (Spares.refl d).withHistory (d.history.setDraft d.buffer.text) ⟨rfl, rfl⟩
  · exact .refl d

theorem Spares.showLine (h : d.Spares after) (line : Option Text) :
    d.Spares (Desk.showLine setting after line).desk := by
  cases line with
  | none => exact h
  | some line => exact h.withBuffer (LineBuffer.masked_settle _ _)

theorem spares_putBack (d : Desk) (setting : Setting) (command : Command) (count : Nat) :
    d.Spares (d.putBack setting command count).desk := by
  rw [putBack]
  split
  · exact .refl d
  · refine (Spares.refl d).withBuffer ?_
    split <;> split <;> rfl

theorem spares_transpose (d : Desk) (setting : Setting) :
    d.Spares (d.transpose setting).desk := by
  rw [transpose]
  dsimp only
  split
  · exact .refl d
  · exact (Spares.refl d).withBuffer rfl

theorem spares_toggle (d : Desk) (setting : Setting) (count : Nat) :
    d.Spares (d.toggle setting count).desk := by
  rw [toggle]
  dsimp only
  split
  · exact (Spares.refl d).withBuffer rfl
  · refine (Spares.refl d).withBuffer ((LineBuffer.masked_settle _ _).trans ?_)
    exact LineBuffer.masked_delete _ _

theorem spares_run (d : Desk) (setting : Setting) (command : Command) (count : Nat) :
    d.Spares (d.run setting command count).desk := by
  cases command with
  | deleteCharOrEof =>
    rw [run]
    split
    · exact .refl d
    · exact d.spares_range setting.commandMode ⟨.deleteChar, .forwardChar, .delete, 1⟩
  | previousHistory =>
    have hprevious := d.keepDraft.history.unchanged_previous
    exact (d.spares_keepDraft.withHistory _ hprevious).showLine _
  | beginningOfHistory =>
    exact (d.spares_keepDraft.withHistory d.keepDraft.history.first.1 ⟨rfl, rfl⟩).showLine _
  | nextHistory => exact ((Spares.refl d).withHistory d.history.next.1 ⟨rfl, rfl⟩).showLine _
  | endOfHistory => exact ((Spares.refl d).withHistory d.history.last.1 ⟨rfl, rfl⟩).showLine _
  | yank => exact d.spares_putBack setting .yank count
  | viPasteAfter => exact d.spares_putBack setting .viPasteAfter count
  | viPasteBefore => exact d.spares_putBack setting .viPasteBefore count
  | undo =>
    rw [run]
    split
    · next hundo =>
      exact (Spares.refl d).withBuffer
        ((LineBuffer.masked_settle _ _).trans (LineBuffer.masked_of_undo? hundo))
    · exact .refl d
  | transposeChars => exact d.spares_transpose setting
  | viToggleCase => exact d.spares_toggle setting count
  | viCommandMode => exact (Spares.refl d).withBuffer rfl
  | viAppend => exact (Spares.refl d).withBuffer rfl
  | viAppendEnd => exact (Spares.refl d).withBuffer rfl
  | viInsertBeginning => exact (Spares.refl d).withBuffer rfl
  | _ => exact .refl d

/-! ## Actions that hold the focus -/

theorem spares_quoted (d : Desk) (q : QuotedInsert) : d.Spares (q.apply d).2.desk := by
  rw [QuotedInsert.apply]
  split
  · exact .refl d
  · exact (Spares.refl d).withBuffer rfl

/-- Looking for a term changes the direction and moves a cursor. -/
theorem spares_lookOn (d : Desk) (setting : Setting) (s : Search) :
    d.Spares (s.lookOn setting d).2.desk := by
  have hturned := d.history.unchanged_setDirection s.direction
  have hsearched := (d.history.setDirection s.direction).unchanged_search s.term
  have hlooked : d.history.Unchanged (s.look setting d.history).2.1 := by
    rw [Search.look]
    split
    · exact hturned
    · split
      all_goals
        next hsearch =>
        rw [hsearch] at hsearched
        exact ⟨hsearched.1.trans hturned.1, hsearched.2.trans hturned.2⟩
  exact (Spares.refl d).withHistory _ hlooked

/-- A search that ends puts a line in the place of the one at hand. -/
theorem spares_finish (d : Desk) (s : Search) : d.Spares (s.finish d).2 := by
  have hleft : (s.left d.buffer).masked = d.buffer.masked := by
    rw [Search.left]
    split <;> rfl
  exact ((Spares.refl d).withHistory d.history.restartSearch ⟨rfl, rfl⟩).withBuffer
    (b := s.left d.buffer) hleft

theorem spares_search (d : Desk) (setting : Setting) (s : Search) :
    d.Spares (s.apply setting d).2.desk := by
  have hfinish := d.spares_finish s
  have hrestarted := (Spares.refl d).withHistory d.history.restartSearch ⟨rfl, rfl⟩
  cases hstep : s.step with
  | start =>
    have hturned := d.history.unchanged_setDirection s.direction
    rw [Search.apply, hstep]
    exact (Spares.refl d).withHistory (d.history.setDirection s.direction).restartSearch hturned
  | older => rw [Search.apply, hstep]; exact d.spares_lookOn setting s
  | newer => rw [Search.apply, hstep]; exact d.spares_lookOn setting s
  | shorten =>
    rw [Search.apply, hstep]
    dsimp only
    split
    · exact hrestarted
    · exact d.spares_lookOn setting _
  | accept => rw [Search.apply, hstep]; exact hfinish
  | leave => rw [Search.apply, hstep]; exact hfinish
  | leaveUp => rw [Search.apply, hstep]; exact hfinish
  | leaveDown => rw [Search.apply, hstep]; exact hfinish.trans ((Spares.refl _).withBuffer rfl)
  | leaveLeft => rw [Search.apply, hstep]; exact hfinish.trans ((Spares.refl _).withBuffer rfl)
  | leaveRight => rw [Search.apply, hstep]; exact hfinish.trans ((Spares.refl _).withBuffer rfl)
  | abort => rw [Search.apply, hstep]; exact hrestarted.trans ((Spares.refl _).withBuffer rfl)

/-! ## All actions -/

/-- **What every action leaves alone.** -/
theorem spares_after (d : Desk) (setting : Setting) (action : Action) :
    d.Spares (d.after setting action) := by
  cases action with
  | insert c => exact (Spares.refl d).withBuffer rfl
  | insertText text => exact (Spares.refl d).withBuffer rfl
  | replaceChar c =>
    refine (Spares.refl d).withBuffer ?_
    split
    · exact LineBuffer.masked_delete _ _
    · rfl
  | plain command count => exact d.spares_run setting command count
  | range r => exact d.spares_range setting.commandMode r
  | focus f =>
    cases f with
    | quoted q => exact d.spares_quoted q
    | search s => exact d.spares_search setting s

end Desk

end PromptLine
