import PromptLine.Editor
import PromptLine.Proofs.Action.SavedStates

/-!
# The line being edited, and the history

While the fetch cursor walks over the entries, the line that was being edited is to wait behind the
newest one.  The history keeps it as its draft, and the commands that go to the older side hand it
over when they leave it.  From then on `Browsing` holds: whenever the fetch cursor is on the draft,
the line is the draft.

The commands that go to the newer side show the draft without having handed the line over.  Pressed
while the line is being edited they put in its place what was handed over last, which can be a line
that is long gone.  This is the only way to lose the line: `text_of_isOnDraft` says what the line is
in every case.
-/

namespace PromptLine

/-- The commands that go through the history and end on its newer side. -/
def Command.showsNewer : Command → Bool
  | nextHistory | endOfHistory => true
  | _ => false

theorem History.isOnDraft_iff (h : History) : h.isOnDraft = true ↔ h.fetchCursor = h.size := by
  rw [isOnDraft, beq_iff_eq]

namespace Desk

/-! ## Edits and the history -/

theorem history_keep (d : Desk) (first last : Nat) : (d.keep first last).history = d.history := by
  rw [keep]
  split <;> rfl

theorem history_applyRange (d : Desk) (commandMode : Bool) (operation : Status)
    (start target : Nat) :
    (d.applyRange commandMode operation start target).history = d.history := by
  have hunless : ∀ (condition : Prop) [Decidable condition] {after : Desk},
      after.history = d.history → (if condition then d else after).history = d.history := by
    intro condition _ after hafter
    split
    · rfl
    · exact hafter
  unfold applyRange
  cases operation with
  | delete => exact hunless _ (history_keep ..)
  | change => exact hunless _ (history_keep ..)
  | yank => exact hunless _ (history_keep ..)
  | upCase => exact hunless _ rfl
  | downCase => exact hunless _ rfl
  | capitalize => exact hunless _ rfl
  | _ => rfl

theorem history_range (d : Desk) (commandMode : Bool) (r : RangeAction) :
    (r.apply commandMode d).history = d.history := by
  have hrange := d.history_applyRange commandMode r.operation (r.ends d.buffer).1
    (r.ends d.buffer).2
  rw [RangeAction.apply]
  dsimp only
  split <;> exact hrange

theorem history_run (d : Desk) (setting : Setting) {command : Command} (count : Nat)
    (hfetches : command.fetches = false) :
    (d.run setting command count).desk.history = d.history := by
  have hputBack : ∀ command, (d.putBack setting command count).desk.history = d.history := by
    intro command
    rw [putBack]
    split <;> rfl
  cases command with
  | deleteCharOrEof =>
    rw [run]
    split
    · rfl
    · exact d.history_range _ _
  | yank => exact hputBack .yank
  | viPasteAfter => exact hputBack .viPasteAfter
  | viPasteBefore => exact hputBack .viPasteBefore
  | undo =>
    rw [run]
    split <;> rfl
  | transposeChars =>
    change (d.transpose setting).desk.history = _
    rw [transpose]
    dsimp only
    split <;> rfl
  | viToggleCase =>
    change (d.toggle setting count).desk.history = _
    rw [toggle]
    dsimp only
    split <;> rfl
  | previousHistory => cases hfetches
  | nextHistory => cases hfetches
  | beginningOfHistory => cases hfetches
  | endOfHistory => cases hfetches
  | _ => rfl

/-- **Edits and motions leave the history alone.** -/
theorem history_after {action : Action} (h : action.Undoable) (setting : Setting) (d : Desk) :
    (d.after setting action).history = d.history := by
  cases action with
  | plain command count => exact d.history_run setting count h.2
  | range r => exact d.history_range setting.commandMode r
  | focus f =>
    cases f with
    | search s => cases h
    | quoted q =>
      change (q.apply d).2.desk.history = _
      rw [QuotedInsert.apply]
      split <;> rfl
  | _ => rfl

/-! ## Going through the history -/

/-- The history is gone through, and a text waits behind its newest entry. -/
structure Browsing (d : Desk) (text : Text) : Prop where
  cursor : d.history.fetchCursor ≤ d.history.size
  draft : d.history.draft = text
  line : d.history.isOnDraft = true → d.buffer.text = text

variable {d : Desk} {text : Text} {setting : Setting}

/-- Showing a line of the history, or ringing the bell where there is none. -/
theorem Browsing.shown {h : History} {line : Option Text} (hcursor : h.fetchCursor ≤ h.size)
    (hdraft : h.draft = text) (hline : h.isOnDraft = true → line.getD d.buffer.text = text) :
    (showLine setting { d with history := h } line).desk.Browsing text := by
  cases line with
  | none => exact ⟨hcursor, hdraft, hline⟩
  | some line =>
    refine ⟨hcursor, hdraft, fun hon => ?_⟩
    exact (LineBuffer.text_settle _ _).trans (hline hon)

/-- The line that is being edited is handed over. -/
theorem browsing_keepDraft (h : d.history.isOnDraft = true) :
    d.keepDraft.Browsing d.buffer.text := by
  rw [keepDraft, if_pos h]
  exact ⟨Nat.le_of_eq (d.history.isOnDraft_iff.mp h), rfl, fun _ => rfl⟩

theorem Browsing.keepDraft (h : d.Browsing text) : d.keepDraft.Browsing text := by
  rw [Desk.keepDraft]
  split
  · next hon => exact ⟨h.cursor, h.line hon, h.line⟩
  · exact h

/-- Going to the older side, once the line is handed over. -/
theorem Browsing.previous (h : d.keepDraft.Browsing text) (count : Nat) :
    (d.run setting .previousHistory count).desk.Browsing text := by
  rw [run]
  dsimp only
  generalize d.keepDraft = d at h ⊢
  rw [History.previous]
  split
  · exact .shown h.cursor h.draft h.line
  · next hne =>
    have hcursor := h.cursor
    have hpos : 0 < d.history.size := List.length_pos_iff.mpr hne
    have hlt : d.history.fetchCursor - 1 < d.history.size := by omega
    refine .shown (Nat.le_of_lt hlt) h.draft fun hon => ?_
    exact absurd ((History.isOnDraft_iff _).mp hon) (Nat.ne_of_lt hlt)

/-- Going to the oldest entry, once the line is handed over. -/
theorem Browsing.first (h : d.keepDraft.Browsing text) (count : Nat) :
    (d.run setting .beginningOfHistory count).desk.Browsing text := by
  rw [run]
  dsimp only
  generalize d.keepDraft = d at h ⊢
  rw [History.first]
  refine .shown (Nat.zero_le _) h.draft fun hon => ?_
  -- the oldest entry is the draft only if there is no entry, and then nothing is shown
  have hsize : 0 = d.history.size := (History.isOnDraft_iff _).mp hon
  have hcursor := h.cursor
  have hstays : d.history.isOnDraft = true := (History.isOnDraft_iff _).mpr (by omega)
  have hnone : d.history.get? 0 = none := List.getElem?_eq_none (Nat.le_of_eq hsize.symm)
  rw [hnone]
  exact h.line hstays

/-- Going to the newer side, whatever is in the line. -/
theorem browsing_next (hcursor : d.history.fetchCursor ≤ d.history.size) (count : Nat) :
    (d.run setting .nextHistory count).desk.Browsing d.history.draft := by
  rw [run, History.next]
  dsimp only
  generalize hindex : (if d.history.fetchCursor < d.history.size then d.history.fetchCursor + 1
    else d.history.fetchCursor) = index
  have hwithin : index ≤ d.history.size := by
    rw [← hindex]
    split <;> omega
  refine .shown hwithin rfl fun hon => ?_
  have hsize : index = d.history.size := (History.isOnDraft_iff _).mp hon
  have hnone : d.history.get? index = none := List.getElem?_eq_none (Nat.le_of_eq hsize.symm)
  rw [hnone]
  rfl

/-- Going back to the draft, whatever is in the line. -/
theorem browsing_last (count : Nat) :
    (d.run setting .endOfHistory count).desk.Browsing d.history.draft := by
  rw [run]
  exact .shown (Nat.le_refl _) rfl fun _ => rfl

/-! ## Sequences of actions -/

/-- **The first step into the history** settles which line waits behind the newest entry. -/
theorem browsing_after {action : Action} {command : Command} (hdraft : d.history.isOnDraft = true)
    (hfetch : action.fetch? = some command) (setting : Setting) :
    (d.after setting action).Browsing
      (if command.showsNewer then d.history.draft else d.buffer.text) := by
  obtain ⟨hfetches, count, rfl⟩ := Action.eq_plain_of_fetch? hfetch
  cases command with
  | previousHistory => exact (browsing_keepDraft hdraft).previous count
  | beginningOfHistory => exact (browsing_keepDraft hdraft).first count
  | nextHistory => exact browsing_next (Nat.le_of_eq ((History.isOnDraft_iff _).mp hdraft)) count
  | endOfHistory => exact browsing_last count
  | _ => cases hfetches

theorem Browsing.congr {after : Desk} (h : d.Browsing text) (hhistory : after.history = d.history)
    (htext : after.buffer.text = d.buffer.text) : after.Browsing text := by
  refine ⟨?_, ?_, fun hon => ?_⟩
  · rw [hhistory]
    exact h.cursor
  · rw [hhistory]
    exact h.draft
  · rw [hhistory] at hon
    exact htext.trans (h.line hon)

/-- Every further step keeps it. -/
theorem Browsing.fetch {action : Action} (h : d.Browsing text) {command : Command}
    (hfetch : action.fetch? = some command) (setting : Setting) :
    (d.after setting action).Browsing text := by
  obtain ⟨hfetches, count, rfl⟩ := Action.eq_plain_of_fetch? hfetch
  cases command with
  | previousHistory => exact h.keepDraft.previous count
  | beginningOfHistory => exact h.keepDraft.first count
  | nextHistory => exact h.draft ▸ browsing_next h.cursor count
  | endOfHistory => exact h.draft ▸ browsing_last count
  | _ => cases hfetches

end Desk

namespace Action

/-- Actions that go through the history, and those that may come in between. -/
def Browses (action : Action) : Prop := action.fetch?.isSome = true ∨ action.Undoable

instance : DecidablePred Browses := fun action =>
  inferInstanceAs (Decidable (action.fetch?.isSome = true ∨ action.Undoable))

theorem Browses.undoable {action : Action} (h : action.Browses) (hfetch : action.fetch? = none) :
    action.Undoable := by
  refine h.resolve_left ?_
  rw [hfetch]
  exact Bool.false_ne_true

end Action

namespace Desk

variable {d : Desk} {text : Text} {steps : List (Setting × Action)}

theorem Browsing.afterAll (h : d.Browsing text) (hsteps : ∀ step ∈ steps, step.2.Browses)
    (hunedited : d.snapshots steps = []) : (d.afterAll steps).Browsing text := by
  induction steps generalizing d with
  | nil => exact h
  | cons step rest ih =>
    obtain ⟨hrest, hfirst⟩ := List.append_eq_nil_iff.mp hunedited
    obtain ⟨hstep, hlater⟩ := List.forall_mem_cons.mp hsteps
    refine ih ?_ hlater hrest
    cases hfetch : step.2.fetch? with
    | some command => exact h.fetch hfetch step.1
    | none =>
      have hundoable := hstep.undoable hfetch
      exact h.congr (history_after hundoable step.1 d) (hundoable.text_of_snapshots_nil hfirst)

/-- **The line when the fetch cursor is back on the draft.**  The line that was being edited is
there again, however the history was gone through, and whatever motions came in between; unless the
first step into the history went to its newer side, which shows the draft that was kept before. -/
theorem text_of_isOnDraft (hdraft : d.history.isOnDraft = true)
    (hsteps : ∀ step ∈ steps, step.2.Browses) (hunedited : d.snapshots steps = [])
    (hback : (d.afterAll steps).history.isOnDraft = true) :
    (d.afterAll steps).buffer.text =
      if (steps.findSome? fun step => step.2.fetch?).any Command.showsNewer then d.history.draft
      else d.buffer.text := by
  induction steps generalizing d with
  | nil => rfl
  | cons step rest ih =>
    obtain ⟨hrest, hfirst⟩ := List.append_eq_nil_iff.mp hunedited
    obtain ⟨hstep, hlater⟩ := List.forall_mem_cons.mp hsteps
    cases hfetch : step.2.fetch? with
    | some command =>
      rw [List.findSome?_cons, hfetch]
      exact ((browsing_after hdraft hfetch step.1).afterAll hlater hrest).line hback
    | none =>
      have hundoable := hstep.undoable hfetch
      have hhistory := history_after hundoable step.1 d
      have hstill : (d.after step.1 step.2).history.isOnDraft = true := by
        rw [hhistory]
        exact hdraft
      rw [List.findSome?_cons, hfetch, afterAll_cons, ih hstill hlater hrest hback, hhistory,
        hundoable.text_of_snapshots_nil hfirst]

/-- Up to the only entry, along the line, and down again: the line is back, although an older draft
was kept before. -/
theorem text_after_entry_and_back :
    let setting : Setting := ⟨.default, false⟩
    let d : Desk := ⟨⟨['n', 'e', 'w'], 3, [], false⟩, .empty 10,
      { History.empty 10 with entries := [['l', 's']], draft := ['o', 'l', 'd'], fetchCursor := 1 }⟩
    let steps : List (Setting × Action) :=
      [(setting, .plain .previousHistory 1),
        (setting, .range ⟨.beginningOfLine, .lineStart, .move, 1⟩),
        (setting, .plain .nextHistory 1)]
    d.history.isOnDraft = true ∧ (∀ step ∈ steps, step.2.Browses) ∧ d.snapshots steps = [] ∧
      (d.afterAll steps).history.isOnDraft = true ∧
        (d.afterAll steps).buffer.text = ['n', 'e', 'w'] := by
  intro setting d steps
  have hsteps : ∀ step ∈ steps, step.2.Browses := by decide +kernel
  exact ⟨rfl, hsteps, by decide +kernel, by decide +kernel,
    text_of_isOnDraft rfl hsteps (by decide +kernel) (by decide +kernel)⟩

end Desk

namespace Editor

/-- The key for the next line of the history, pressed while a line is being edited that was not
handed over: the line is gone. -/
theorem write_next_loses_line :
    let e := ((new .default (.reliable .utf8)).write [0x61, 0x62, 0x63]).1
    e.desk.history.isOnDraft = true ∧ e.desk.buffer.text = ['a', 'b', 'c'] ∧
      (e.write [0x0E]).1.desk.history.isOnDraft = true ∧
        (e.write [0x0E]).1.desk.buffer.text = [] := by
  decide +kernel

end Editor

end PromptLine
