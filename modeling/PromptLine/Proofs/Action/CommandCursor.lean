import PromptLine.Editor
import PromptLine.Proofs.History.Occurrences
import PromptLine.Proofs.Line.CursorBounds

/-!
# The cursor after an action

No action takes the cursor out of the line.  In command mode an action is also to leave the cursor
on a character, if it found it there.  Every action that command status can lead to does so, with
one exception: a search that is left puts the line back with the cursor at its end, or steps past
its last character.  `Search.Strands` says when.
-/

namespace PromptLine

/-! ## Ranges -/

namespace RangeAction

variable {d : Desk}

theorem sound_apply (h : d.buffer.Sound) (commandMode : Bool) (r : RangeAction) :
    (r.apply commandMode d).buffer.Sound := by
  rw [apply]
  dsimp only
  have hrange := Desk.sound_applyRange h commandMode r.operation (r.ends d.buffer).1
    (r.ends d.buffer).2
  split
  · exact (hrange.place _).settle _
  · exact hrange

theorem onCharacter_apply (r : RangeAction) (d : Desk) :
    (r.apply true d).buffer.OnCharacter := by
  rw [apply]
  dsimp only
  split
  · exact LineBuffer.onCharacter_settle _
  · exact d.onCharacter_applyRange _ _ _

end RangeAction

/-! ## Plain commands -/

namespace Desk

variable {d : Desk} {setting : Setting}

theorem sound_showLine (h : d.buffer.Sound) (history : History) (line : Option Text) :
    (showLine setting { d with history := history } line).desk.buffer.Sound := by
  cases line with
  | none => exact h
  | some line => exact (h.replace line).settle _

theorem buffer_keepDraft (d : Desk) : d.keepDraft.buffer = d.buffer := by
  rw [keepDraft]
  split <;> rfl

theorem sound_putBack (h : d.buffer.Sound) (command : Command) (count : Nat) :
    (d.putBack setting command count).desk.buffer.Sound := by
  rw [putBack]
  split
  · exact h
  · next text _ =>
    have hstepped : (if command = .viPasteAfter ∧ 0 < d.buffer.save.length then
        d.buffer.save.move 1 else d.buffer.save).Sound := by
      split
      · exact h.save.move 1
      · exact h.save
    have hput := hstepped.insert (List.replicate count text).flatten
    change LineBuffer.Sound (if command = .yank then _ else _)
    split
    · exact hput
    · exact hput.move (-1)

theorem sound_transpose (h : d.buffer.Sound) : (d.transpose setting).desk.buffer.Sound := by
  rw [transpose]
  dsimp only
  split
  · exact h
  · exact (h.save.replace _).place _

theorem sound_toggle (h : d.buffer.Sound) (count : Nat) :
    (d.toggle setting count).desk.buffer.Sound := by
  rw [toggle]
  dsimp only
  split
  · exact h
  · exact ((h.save.delete _).insert _).settle _

/-- **Plain commands keep the cursor within the line.** -/
theorem sound_run (h : d.buffer.Sound) (command : Command) (count : Nat) :
    (d.run setting command count).desk.buffer.Sound := by
  have hdraft : d.keepDraft.buffer.Sound := by
    rw [buffer_keepDraft]
    exact h
  cases command with
  | deleteCharOrEof =>
    rw [run]
    split
    · exact h
    · exact RangeAction.sound_apply h _ _
  | previousHistory => exact sound_showLine hdraft _ d.keepDraft.history.previous.2
  | beginningOfHistory => exact sound_showLine hdraft _ d.keepDraft.history.first.2
  | nextHistory => exact sound_showLine h _ (some d.history.next.2)
  | endOfHistory => exact sound_showLine h _ (some d.history.last.2)
  | yank => exact sound_putBack h _ count
  | viPasteAfter => exact sound_putBack h _ count
  | viPasteBefore => exact sound_putBack h _ count
  | undo =>
    rw [run]
    split
    · next after hundo => exact (h.undo hundo).settle _
    · exact h
  | transposeChars => exact sound_transpose h
  | viToggleCase => exact sound_toggle h count
  | viCommandMode => exact h.move (-1)
  | viAppend => exact h.move 1
  | viAppendEnd => exact h.place _
  | viInsertBeginning => exact h.place _
  | _ => exact h

end Desk

/-- The commands that may leave the cursor behind the last character.  They are for typing text. -/
def Command.isForTyping : Command → Bool
  | yank | transposeChars | viAppend | viAppendEnd | viInsertBeginning => true
  | _ => false

namespace Desk

/-! ## Plain commands in command mode -/

variable {d : Desk} {setting : Setting}

theorem onCharacter_showLine (hmode : setting.commandMode = true) (h : d.buffer.OnCharacter)
    (history : History) (line : Option Text) :
    (showLine setting { d with history := history } line).desk.buffer.OnCharacter := by
  cases line with
  | none => exact h
  | some line =>
    rw [showLine, hmode]
    exact LineBuffer.onCharacter_settle _

theorem onCharacter_putBack (hsound : d.buffer.Sound) (h : d.buffer.OnCharacter)
    {command : Command} (hcommand : command ≠ .yank) (count : Nat) :
    (d.putBack setting command count).desk.buffer.OnCharacter := by
  rw [putBack]
  split
  · exact h
  · next text _ =>
    dsimp only
    rw [if_neg hcommand]
    split
    · exact LineBuffer.onCharacter_insert_back (hsound.save.move 1) _
    · exact LineBuffer.onCharacter_insert_back hsound.save _

theorem onCharacter_toggle (hmode : setting.commandMode = true) (h : d.buffer.OnCharacter)
    (count : Nat) : (d.toggle setting count).desk.buffer.OnCharacter := by
  rw [toggle, hmode]
  dsimp only
  split
  · exact h
  · exact LineBuffer.onCharacter_settle _

/-- **In command mode plain commands leave the cursor on a character**, unless they are for typing
text. -/
theorem onCharacter_run (hmode : setting.commandMode = true) (hsound : d.buffer.Sound)
    (h : d.buffer.OnCharacter) {command : Command} (hcommand : command.isForTyping = false)
    (count : Nat) : (d.run setting command count).desk.buffer.OnCharacter := by
  have hdraft : d.keepDraft.buffer.OnCharacter := by
    rw [buffer_keepDraft]
    exact h
  cases command with
  | deleteCharOrEof =>
    rw [run]
    split
    · exact h
    · rw [hmode]
      exact RangeAction.onCharacter_apply _ _
  | previousHistory => exact onCharacter_showLine hmode hdraft _ d.keepDraft.history.previous.2
  | beginningOfHistory => exact onCharacter_showLine hmode hdraft _ d.keepDraft.history.first.2
  | nextHistory => exact onCharacter_showLine hmode h _ (some d.history.next.2)
  | endOfHistory => exact onCharacter_showLine hmode h _ (some d.history.last.2)
  | viPasteAfter => exact onCharacter_putBack hsound h (by decide) count
  | viPasteBefore => exact onCharacter_putBack hsound h (by decide) count
  | undo =>
    rw [run]
    split
    · next after hundo =>
      rw [hmode]
      exact LineBuffer.onCharacter_settle _
    · exact h
  | viToggleCase => exact onCharacter_toggle hmode h count
  | viCommandMode => exact LineBuffer.onCharacter_move_back hsound.cursor
  | yank => cases hcommand
  | transposeChars => cases hcommand
  | viAppend => cases hcommand
  | viAppendEnd => cases hcommand
  | viInsertBeginning => cases hcommand
  | _ => exact h

end Desk

/-! ## Searches -/

namespace Search

variable {d : Desk} {setting : Setting} {s : Search}

/-- The line that a search leaves, before the cursor takes a step. -/
def left (s : Search) (b : LineBuffer) : LineBuffer :=
  if s.matched = [] then b.replace s.before
  else (b.replace s.matched).place ((Text.find? s.term s.matched).getD 0)

theorem sound_left (h : d.buffer.Sound) (s : Search) : (s.left d.buffer).Sound := by
  rw [left]
  split
  · exact h.replace _
  · exact (h.replace _).place _

theorem buffer_lookOn (setting : Setting) (s : Search) (d : Desk) :
    (s.lookOn setting d).2.desk.buffer = d.buffer := by
  rw [lookOn]
  rcases s.look setting d.history with ⟨s, h, outcome⟩
  rfl

/-- Going back on the term leaves the line alone. -/
theorem buffer_apply_shorten (setting : Setting) (hstep : s.step = .shorten) (d : Desk) :
    (s.apply setting d).2.desk.buffer = d.buffer := by
  rw [apply, hstep]
  dsimp only
  split
  · rfl
  · exact buffer_lookOn setting _ d

theorem sound_apply (h : d.buffer.Sound) (setting : Setting) (s : Search) :
    (s.apply setting d).2.desk.buffer.Sound := by
  cases hstep : s.step with
  | start => rw [apply, hstep]; exact h
  | older => rw [apply, hstep]; dsimp only; rw [buffer_lookOn]; exact h
  | newer => rw [apply, hstep]; dsimp only; rw [buffer_lookOn]; exact h
  | shorten => rw [buffer_apply_shorten setting hstep]; exact h
  | accept => rw [apply, hstep]; exact sound_left h s
  | leave => rw [apply, hstep]; exact sound_left h s
  | leaveUp => rw [apply, hstep]; exact sound_left h s
  | leaveDown => rw [apply, hstep]; exact (sound_left h s).place _
  | leaveLeft => rw [apply, hstep]; exact (sound_left h s).move (-1)
  | leaveRight => rw [apply, hstep]; exact (sound_left h s).move 1
  | abort => rw [apply, hstep]; exact h.replace []

theorem event?_lookOn (setting : Setting) (s : Search) (d : Desk) :
    (s.lookOn setting d).2.outcome.event? = none := by
  rw [lookOn, look]
  dsimp only
  split
  · rfl
  · split <;> rfl

/-- **A search ends the line with one step only**, the one that accepts what was found. -/
theorem event?_apply_eq_none_iff (setting : Setting) (s : Search) (d : Desk) :
    (s.apply setting d).2.outcome.event? = none ↔ s.step ≠ .accept := by
  cases hs : s.step with
  | older => rw [apply, hs]; exact iff_of_true (event?_lookOn setting s d) SearchStep.noConfusion
  | newer => rw [apply, hs]; exact iff_of_true (event?_lookOn setting s d) SearchStep.noConfusion
  | shorten =>
    refine iff_of_true ?_ SearchStep.noConfusion
    rw [apply, hs]
    dsimp only
    split
    · rfl
    · exact event?_lookOn setting _ d
  | accept =>
    rw [apply, hs]
    exact iff_of_false (Option.some_ne_none _) fun hne => hne rfl
  | _ => rw [apply, hs]; exact iff_of_true rfl SearchStep.noConfusion

/-- The step of a search leaves a line that is not empty with the cursor behind its last character.
Without a hit the cursor goes to the end of the line.  With one it goes to the term, from where one
more step can lead out of a line that is not longer than that. -/
def Strands (s : Search) : Prop :=
  match s.step with
  | .leave | .leaveUp => s.matched = [] ∧ s.before ≠ []
  | .leaveDown => s.matched ≠ [] ∨ s.before ≠ []
  | .leaveRight =>
    if s.matched = [] then s.before ≠ []
    else s.matched.length ≤ (Text.find? s.term s.matched).getD 0 + 1
  | _ => False

theorem left_of_matched_nil (hmatched : s.matched = []) (b : LineBuffer) :
    s.left b = b.replace s.before := if_pos hmatched

theorem left_of_matched_ne_nil (hmatched : s.matched ≠ []) (b : LineBuffer) :
    s.left b = (b.replace s.matched).place ((Text.find? s.term s.matched).getD 0) :=
  if_neg hmatched

/-- The cursor of the line that a search leaves is on a character exactly if something was found, or
there is no line. -/
theorem onCharacter_left_iff (s : Search) (b : LineBuffer) :
    (s.left b).OnCharacter ↔ ¬(s.matched = [] ∧ s.before ≠ []) := by
  by_cases hmatched : s.matched = []
  · rw [left_of_matched_nil hmatched]
    constructor
    · rintro hon ⟨-, hbefore⟩
      exact Nat.lt_irrefl _ (hon hbefore)
    · intro hnot hbefore
      exact absurd ⟨hmatched, hbefore⟩ hnot
  · rw [left_of_matched_ne_nil hmatched]
    constructor
    · rintro - ⟨hnil, -⟩
      exact hmatched hnil
    · intro _ _
      have hwithin := Text.find?_getD_lt s.term hmatched
      exact Nat.lt_of_le_of_lt (Nat.min_le_left _ _) hwithin

theorem text_left_ne_nil_iff (s : Search) (b : LineBuffer) :
    (s.left b).text ≠ [] ↔ s.matched ≠ [] ∨ s.before ≠ [] := by
  by_cases hmatched : s.matched = []
  · rw [left_of_matched_nil hmatched]
    exact ⟨Or.inr, fun hor => hor.resolve_left (absurd hmatched)⟩
  · rw [left_of_matched_ne_nil hmatched]
    exact ⟨fun _ => .inl hmatched, fun _ => hmatched⟩

/-- A step to the right strands the cursor if it was on the last character, or behind it. -/
theorem onCharacter_left_right_iff (s : Search) (b : LineBuffer) :
    ((s.left b).move 1).OnCharacter ↔
      ¬(if s.matched = [] then s.before ≠ []
        else s.matched.length ≤ (Text.find? s.term s.matched).getD 0 + 1) := by
  have hmove : ((s.left b).move 1).OnCharacter ↔
      ((s.left b).text ≠ [] → (s.left b).cursor + 1 < (s.left b).length) := by
    refine forall_congr' fun hne => ?_
    change min (((s.left b).cursor : Int) + 1).toNat (s.left b).length < (s.left b).length ↔ _
    omega
  rw [hmove, text_left_ne_nil_iff]
  by_cases hmatched : s.matched = []
  · rw [left_of_matched_nil hmatched, if_pos hmatched]
    have hpast : ¬s.before.length + 1 < s.before.length := by omega
    exact ⟨fun hon hbefore => hpast (hon (.inr hbefore)),
      fun hnot hor => absurd (hor.resolve_left (absurd hmatched)) hnot⟩
  · rw [left_of_matched_ne_nil hmatched, if_neg hmatched]
    have hwithin := Text.find?_getD_lt s.term hmatched
    change (_ → min _ s.matched.length + 1 < s.matched.length) ↔ _
    rw [Nat.min_eq_left (Nat.le_of_lt hwithin), Nat.not_le]
    exact ⟨fun hon => hon (.inl hmatched), fun hlt _ => hlt⟩

/-- **Where a search leaves the cursor.**  As long as it goes on it does not touch it. -/
theorem onCharacter_apply_iff (hsound : d.buffer.Sound) (h : d.buffer.OnCharacter)
    (setting : Setting) (hstep : s.step ≠ .accept) :
    (s.apply setting d).2.desk.buffer.OnCharacter ↔ ¬s.Strands := by
  have hgoes : s.Strands = False → (d.buffer.OnCharacter ↔ ¬s.Strands) := by
    intro hstrands
    rw [hstrands]
    exact ⟨fun _ => not_false, fun _ => h⟩
  cases hs : s.step with
  | start => rw [apply, hs]; exact hgoes (by rw [Strands, hs])
  | older => rw [apply, hs]; dsimp only; rw [buffer_lookOn]; exact hgoes (by rw [Strands, hs])
  | newer => rw [apply, hs]; dsimp only; rw [buffer_lookOn]; exact hgoes (by rw [Strands, hs])
  | shorten => rw [buffer_apply_shorten setting hs]; exact hgoes (by rw [Strands, hs])
  | accept => exact absurd hs hstep
  | leave => rw [apply, hs, Strands, hs]; exact s.onCharacter_left_iff d.buffer
  | leaveUp => rw [apply, hs, Strands, hs]; exact s.onCharacter_left_iff d.buffer
  | leaveLeft =>
    rw [apply, hs, Strands, hs]
    exact ⟨fun _ => not_false, fun _ =>
      LineBuffer.onCharacter_move_back (sound_left hsound s).cursor⟩
  | abort =>
    rw [apply, hs, Strands, hs]
    exact ⟨fun _ => not_false, fun _ => d.buffer.onCharacter_clear⟩
  | leaveDown =>
    rw [apply, hs, Strands, hs]
    refine Iff.trans ?_ (not_congr (s.text_left_ne_nil_iff d.buffer))
    change ((s.left d.buffer).text ≠ [] →
      min (s.left d.buffer).length (s.left d.buffer).length < (s.left d.buffer).length) ↔ _
    rw [Nat.min_self]
    exact ⟨fun hon hne => Nat.lt_irrefl _ (hon hne), fun hnot hne => absurd hne hnot⟩
  | leaveRight =>
    rw [apply, hs, Strands, hs]
    exact s.onCharacter_left_right_iff d.buffer

end Search

/-! ## All actions -/

namespace Action

variable {d : Desk} {setting : Setting}

/-- **No action takes the cursor out of the line.** -/
theorem sound_apply (h : d.buffer.Sound) (setting : Setting) (action : Action) :
    (action.apply setting d).2.desk.buffer.Sound := by
  cases action with
  | insert c => exact h.save.insert _
  | insertText text => exact h.save.insert _
  | replaceChar c =>
    change LineBuffer.Sound (if d.buffer.cursor < d.buffer.length then _ else _)
    split
    · exact ((h.save.delete 1).insert [c]).place _
    · exact h
  | plain command count => exact Desk.sound_run h command count
  | range r => exact RangeAction.sound_apply h _ r
  | focus f =>
    cases f with
    | quoted q =>
      change (q.apply d).2.desk.buffer.Sound
      rw [QuotedInsert.apply]
      split
      · exact h
      · exact h.save.insert _
    | search s => exact Search.sound_apply h setting s

/-- The actions that keep the rule of command mode by themselves.  The last change is always one of
them. -/
def ForCommand : Action → Prop
  | plain command _ => command.isForTyping = false
  | range _ | replaceChar _ => True
  | insert _ | insertText _ | focus _ => False

theorem ofCommand_ne_focus {command : Command} (h : Focus.ofCommand? command = none)
    (operation : Status) (count : Nat) (f : Focus) :
    ofCommand command operation count ≠ .focus f := by
  rw [ofCommand]
  dsimp only
  rw [h]
  dsimp only
  split <;> exact Action.noConfusion

theorem forCommand_ofCommand {command : Command} (htyping : command.isForTyping = false)
    (hfocus : Focus.ofCommand? command = none) (operation : Status) (count : Nat) :
    (ofCommand command operation count).ForCommand := by
  rw [ofCommand]
  dsimp only
  rw [hfocus]
  dsimp only
  split
  · trivial
  · exact htyping

/-- **In command mode such an action leaves the cursor on a character.** -/
theorem onCharacter_apply (hmode : setting.commandMode = true) (hsound : d.buffer.Sound)
    (h : d.buffer.OnCharacter) {action : Action} (haction : action.ForCommand) :
    (action.apply setting d).2.desk.buffer.OnCharacter := by
  cases action with
  | plain command count => exact Desk.onCharacter_run hmode hsound h haction count
  | range r =>
    change (r.apply setting.commandMode d).buffer.OnCharacter
    rw [hmode]
    exact r.onCharacter_apply d
  | replaceChar c =>
    change LineBuffer.OnCharacter (if d.buffer.cursor < d.buffer.length then _ else _)
    split
    · intro _
      have hcursor : d.buffer.cursor ≤ (d.buffer.save.delete 1).length :=
        (hsound.save.delete 1).cursor
      have hlength := (d.buffer.save.delete 1).length_insert [c]
      refine Nat.lt_of_le_of_lt (Nat.min_le_left d.buffer.cursor _) ?_
      change d.buffer.cursor < ((d.buffer.save.delete 1).insert [c]).length
      rw [hlength]
      exact Nat.lt_succ_of_le hcursor
    · exact h
  | insert c => cases haction
  | insertText text => cases haction
  | focus f => cases haction

end Action

end PromptLine
