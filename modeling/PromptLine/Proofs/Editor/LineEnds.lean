import PromptLine.Proofs.Action.HistoryDraft
import PromptLine.Proofs.Editor.Keystrokes

/-!
# Where one line ends and the next begins

A line ends with a commit, with the end of input, or with an interrupt.  The next one begins empty,
with nothing in focus and the mode as it was at first.  Two things are carried over from line to
line instead.

The fetch cursor goes back behind the newest entry only when the line is recorded.  After any other
end it stays on the entry it was on.

The saved states stay, all of them.  So undoing does not stop at the beginning of a line: it goes on
to the states that were saved on the lines before, and rings the bell only where none is left.  What
it brings back has at least been in the line before.
-/

namespace PromptLine

/-! ## Actions that end a line -/

theorem Search.step_of_ends {s : Search} {setting : Setting} {d : Desk} {event : Event}
    (h : (s.apply setting d).2.outcome.event? = some event) : s.step = .accept := by
  by_contra hne
  rw [(Search.event?_apply_eq_none_iff setting s d).mpr hne] at h
  cases h

namespace Desk

/-- What an action that ends the line leaves as it was. -/
structure Ending (d after : Desk) : Prop where
  saved : after.buffer.saved = d.buffer.saved
  masked : after.buffer.masked = d.buffer.masked
  size : after.history.size = d.history.size
  fetchCursor : after.history.fetchCursor = d.history.fetchCursor

theorem Ending.refl (d : Desk) : d.Ending d := ⟨rfl, rfl, rfl, rfl⟩

variable {d : Desk} {setting : Setting} {event : Event}

theorem Ending.isOnDraft {after : Desk} (h : d.Ending after) :
    after.history.isOnDraft = d.history.isOnDraft := by
  rw [History.isOnDraft, History.isOnDraft, h.size, h.fetchCursor]

/-- Which plain commands end the line, and how. -/
theorem event?_run (d : Desk) (setting : Setting) (command : Command) (count : Nat) :
    (d.run setting command count).outcome.event? =
      match command with
      | .acceptLine => some (.line d.buffer.text)
      | .interrupt => some .interrupted
      | .deleteCharOrEof => if d.buffer.length = 0 then some .eof else none
      | _ => none := by
  have hshown : ∀ (d : Desk) (line : Option Text),
      (showLine setting d line).outcome.event? = none := by
    intro d line
    cases line <;> rfl
  have hputBack : ∀ command, (d.putBack setting command count).outcome.event? = none := by
    intro command
    rw [putBack]
    split <;> rfl
  cases command with
  | deleteCharOrEof =>
    rw [run]
    split <;> rfl
  | complete =>
    rw [run]
    dsimp only
    split <;> rfl
  | undo =>
    rw [run]
    split <;> rfl
  | transposeChars =>
    change (d.transpose setting).outcome.event? = none
    rw [transpose]
    dsimp only
    split <;> rfl
  | viToggleCase =>
    change (d.toggle setting count).outcome.event? = none
    rw [toggle]
    dsimp only
    split <;> rfl
  | previousHistory => exact hshown _ _
  | nextHistory => exact hshown _ _
  | beginningOfHistory => exact hshown _ _
  | endOfHistory => exact hshown _ _
  | yank => exact hputBack .yank
  | viPasteAfter => exact hputBack .viPasteAfter
  | viPasteBefore => exact hputBack .viPasteBefore
  | _ => rfl

theorem ending_run {command : Command} {count : Nat}
    (h : (d.run setting command count).outcome.event? = some event) :
    d.Ending (d.run setting command count).desk := by
  rw [event?_run] at h
  cases command with
  | acceptLine => exact .refl d
  | interrupt => exact .refl d
  | deleteCharOrEof =>
    dsimp only at h
    split at h
    · next hempty =>
      rw [run, if_pos hempty]
      exact .refl d
    · cases h
  | _ => cases h

/-- **An action that ends the line** touches neither what is saved nor where the fetch cursor
is. -/
theorem ending_after {action : Action}
    (h : (action.apply setting d).2.outcome.event? = some event) :
    d.Ending (d.after setting action) := by
  cases action with
  | plain command count => exact ending_run h
  | focus f =>
    cases f with
    | quoted q =>
      change (q.apply d).2.outcome.event? = some event at h
      rw [QuotedInsert.apply] at h
      split at h <;> cases h
    | search s =>
      have hstep := Search.step_of_ends h
      change d.Ending (s.apply setting d).2.desk
      refine ⟨s.saved_apply setting d, ?_, ?_, ?_⟩
      all_goals rw [Search.apply, hstep]
      · change (s.left d.buffer).masked = _
        rw [Search.left]
        split <;> rfl
      · rfl
      · rfl
  | _ => cases h

/-- **A line that is committed** is reported as it is. -/
theorem line_eq_of_ends {action : Action} {line : Text}
    (h : (action.apply setting d).2.outcome.event? = some (.line line)) :
    line = (d.after setting action).buffer.text := by
  cases action with
  | plain command count =>
    change (d.run setting command count).outcome.event? = some (.line line) at h
    rw [event?_run] at h
    cases command with
    | acceptLine =>
      cases h
      rfl
    | deleteCharOrEof =>
      dsimp only at h
      split at h <;> cases h
    | _ => cases h
  | focus f =>
    cases f with
    | quoted q =>
      change (q.apply d).2.outcome.event? = some (.line line) at h
      rw [QuotedInsert.apply] at h
      split at h <;> cases h
    | search s =>
      have hstep := Search.step_of_ends h
      change (s.apply setting d).2.outcome.event? = some (.line line) at h
      change line = (s.apply setting d).2.desk.buffer.text
      rw [Search.apply, hstep] at h ⊢
      cases h
      rfl
  | _ => cases h

/-! ## The desk of the next line -/

/-- A line that is recorded takes the fetch cursor back behind the newest entry.  No other end of a
line does. -/
theorem isOnDraft_nextLine_iff (d : Desk) (event : Event) :
    (d.nextLine event).history.isOnDraft = true ↔
      (∃ line, event = .line line) ∧ d.buffer.masked = false ∨ d.history.isOnDraft = true := by
  have hstays : ∀ {event}, (d.nextLine event).history = d.history.restartSearch →
      ¬((∃ line, event = .line line) ∧ d.buffer.masked = false) →
        ((d.nextLine event).history.isOnDraft = true ↔
          (∃ line, event = .line line) ∧ d.buffer.masked = false ∨
            d.history.isOnDraft = true) := by
    intro event hhistory hnot
    rw [hhistory, or_iff_right hnot]
    rfl
  cases event with
  | line line =>
    cases hmasked : d.buffer.masked with
    | true =>
      have hhistory : (d.nextLine (.line line)).history = d.history.restartSearch :=
        congrArg History.restartSearch (if_pos hmasked)
      exact hmasked ▸ hstays hhistory fun hboth => absurd (hmasked.symm.trans hboth.2) (by decide)
    | false =>
      have hhistory : (d.nextLine (.line line)).history =
          (d.history.push d.buffer.text).restartSearch :=
        congrArg History.restartSearch (if_neg (Bool.eq_false_iff.mp hmasked))
      rw [hhistory]
      exact iff_of_true (History.isOnDraft_toDraft _) (.inl ⟨⟨line, rfl⟩, rfl⟩)
  | eof => exact hstays rfl (by rintro ⟨⟨line, hline⟩, -⟩; cases hline)
  | interrupted => exact hstays rfl (by rintro ⟨⟨line, hline⟩, -⟩; cases hline)

/-- From the draft, one step to the older side shows the newest entry. -/
theorem text_run_previousHistory {d : Desk} (hdraft : d.history.isOnDraft = true)
    (hne : d.history.entries ≠ []) (setting : Setting) (count : Nat) :
    d.history.entries.getLast? = some (d.run setting .previousHistory count).desk.buffer.text := by
  have hkept : d.keepDraft = { d with history := d.history.setDraft d.buffer.text } := if_pos hdraft
  have hcursor : d.history.fetchCursor = d.history.entries.length :=
    d.history.isOnDraft_iff.mp hdraft
  have hnewest : d.history.entries[d.history.fetchCursor - 1]? =
      some (d.history.entries.getLast hne) := by
    rw [hcursor, ← List.getLast?_eq_getElem?, List.getLast?_eq_some_getLast hne]
  rw [run, hkept, History.previous]
  dsimp only
  rw [if_neg (show (d.history.setDraft d.buffer.text).entries ≠ [] from hne)]
  dsimp only [History.get?, History.setDraft]
  rw [hnewest, List.getLast?_eq_some_getLast hne]
  exact congrArg some (LineBuffer.text_settle setting.commandMode (d.buffer.replace _)).symm

/-- Undoing rings the bell exactly if nothing is saved. -/
theorem run_undo_eq_refused_iff (d : Desk) (setting : Setting) (count : Nat) :
    d.run setting .undo count = d.refused setting ↔ d.buffer.saved = [] := by
  rw [run, LineBuffer.undo?]
  cases hsaved : d.buffer.saved with
  | nil => exact iff_of_true rfl rfl
  | cons state rest =>
    refine iff_of_false (fun heq => ?_) (List.cons_ne_nil _ _)
    cases congrArg Reaction.outcome heq

end Desk

/-! ## The mode of the next line -/

namespace Mode

/-- A mode as it is at the beginning of a line: the next key is not the rest of anything. -/
def Initial : Mode → Prop
  | emacs m => m.leader = .idle ∧ m.focus = none
  | vi m => m.status = .edit ∧ m.count = none ∧ m.operatorCount = none ∧ m.focus = none

theorem initial_reset (m : Mode) : m.reset.Initial := by
  cases m with
  | emacs m => exact ⟨rfl, rfl⟩
  | vi m => exact ⟨rfl, rfl, rfl, rfl⟩

theorem Initial.hasFocus {m : Mode} (h : m.Initial) : m.hasFocus = false := by
  have hfocus : m.focus? = none := by
    cases m with
    | emacs m => exact h.2
    | vi m => exact h.2.2.2
  rw [Mode.hasFocus, hfocus]
  rfl

end Mode

namespace Editor

/-! ## Keys that end a line -/

variable {e : Editor} {stroke : Stroke} {outcome : Outcome} {event : Event}

/-- An action that was carried out is answered with its outcome. -/
theorem outcome_of_carryOut {action : Action}
    (h : (e.carryOut action).2 = .ok (some outcome)) : (e.applyAction action).2.1 = outcome := by
  rw [carryOut] at h
  generalize e.applyAction action = applied at h ⊢
  obtain ⟨applied, found, banner⟩ := applied
  dsimp only at h
  generalize applied.conclude found banner = concluded at h
  obtain ⟨after, _ | error⟩ := concluded
  · cases h
    rfl
  · cases h

/-- **A key that ends the line** leads to an action that does, and the editor is at the beginning of
the next line after it. -/
theorem ends_of_outcome (h : (e.handle stroke).2 = .ok (some outcome))
    (hevent : outcome.event? = some event) :
    ∃ (mode : Mode) (last : Desk), e.desk.Ending last ∧ (e.press stroke).mode = mode.reset ∧
      (e.press stroke).desk = last.nextLine event := by
  change (e.perform stroke).2 = .ok (some outcome) at h
  change ∃ (mode : Mode) (last : Desk), e.desk.Ending last ∧
    (e.perform stroke).1.mode = mode.reset ∧ (e.perform stroke).1.desk = last.nextLine event
  rw [perform] at h ⊢
  generalize e.mode.parse stroke = parsed at h ⊢
  obtain ⟨mode, _ | action⟩ := parsed
  · cases h
  · have houtcome := outcome_of_carryOut h
    rw [← houtcome] at hevent
    obtain ⟨hmode, hdesk⟩ := conclude_of_closed (({ e with mode := mode } : Editor).applyAction
      action).1 hevent (({ e with mode := mode } : Editor).applyAction action).2.2
    dsimp only
    rw [carryOut_fst]
    exact ⟨_, _, Desk.ending_after hevent, hmode, hdesk⟩

/-- **A line begins** empty, with nothing in focus and the mode as it was at first.  The fetch
cursor is behind the newest entry if the last line was recorded, or if it was there before; so then
the first step to the older side shows the newest entry. -/
theorem line_begins (h : (e.handle stroke).2 = .ok (some outcome))
    (hevent : outcome.event? = some event) :
    let after := (e.handle stroke).1
    after.desk.buffer.text = [] ∧ after.desk.buffer.cursor = 0 ∧ after.mode.hasFocus = false ∧
      after.mode.Initial ∧
      (after.desk.history.isOnDraft = true ↔
        (∃ line, event = .line line) ∧ e.desk.buffer.masked = false ∨
          e.desk.history.isOnDraft = true) ∧
      (after.desk.history.isOnDraft = true → after.desk.history.entries ≠ [] →
        ∀ (setting : Setting) (count : Nat), after.desk.history.entries.getLast? =
          some (after.desk.run setting .previousHistory count).desk.buffer.text) := by
  obtain ⟨mode, last, hending, hmode, hdesk⟩ := ends_of_outcome h hevent
  have hinitial : (e.press stroke).mode.Initial := hmode ▸ mode.initial_reset
  have hdraft := last.isOnDraft_nextLine_iff event
  rw [hending.masked, hending.isOnDraft, ← hdesk] at hdraft
  refine ⟨?_, ?_, hinitial.hasFocus, hinitial, hdraft, fun hon hne setting count =>
    Desk.text_run_previousHistory hon hne setting count⟩
  · change (e.press stroke).desk.buffer.text = []
    rw [hdesk]
    rfl
  · change (e.press stroke).desk.buffer.cursor = 0
    rw [hdesk]
    rfl

/-- The key that commits a line. -/
theorem line_begins_after_enter :
    let e := ((new .default (.reliable .utf8)).write [0x61, 0x62, 0x63]).1
    let after := (e.handle (.ofChar '\r')).1
    after.desk.buffer.text = [] ∧ after.desk.history.isOnDraft = true ∧
      after.desk.history.entries.getLast? = some ['a', 'b', 'c'] ∧
        ∀ (setting : Setting) (count : Nat), after.desk.history.entries.getLast? =
          some (after.desk.run setting .previousHistory count).desk.buffer.text := by
  intro e after
  have houtcome : (e.handle (.ofChar '\r')).2 = .ok (some (.commit ['a', 'b', 'c'])) := by
    decide +kernel
  have hnewest : after.desk.history.entries.getLast? = some ['a', 'b', 'c'] := by decide +kernel
  have hunmasked : e.desk.buffer.masked = false := by decide +kernel
  have hne : after.desk.history.entries ≠ [] := by
    intro hnil
    rw [hnil] at hnewest
    cases hnewest
  obtain ⟨htext, -, -, -, hdraft, holder⟩ := line_begins houtcome rfl
  have hon := hdraft.mpr (.inl ⟨⟨_, rfl⟩, hunmasked⟩)
  exact ⟨htext, hon, hnewest, holder hon hne⟩

/-- Two lines up, and the line is given up: the fetch cursor stays where it is, and the next step up
leads past the newest entry. -/
theorem write_interrupt_keeps_fetch_cursor :
    let e := ((new .default (.reliable .utf8)).write [0x61, 0x0D, 0x62, 0x0D, 0x10, 0x10]).1
    (e.write [0x03]).2.toOption = some [.interrupted] ∧
      (e.write [0x03]).1.desk.buffer.text = [] ∧
        (e.write [0x03]).1.desk.history.isOnDraft = false ∧
          (e.write [0x03]).1.desk.history.entries = [['a'], ['b']] ∧
            (e.write [0x03, 0x10]).1.desk.buffer.text = ['a'] := by
  decide +kernel

/-! ## What undoing brings back -/

/-- A state that is saved after a key was saved before it, or is the line as the key found it. -/
theorem mem_saved_press {state : Text × Nat} (h : state ∈ (e.press stroke).desk.buffer.saved) :
    state = (e.desk.buffer.text, e.desk.buffer.cursor) ∨ state ∈ e.desk.buffer.saved := by
  rcases hparse : e.mode.parse stroke with ⟨mode, action?⟩
  have hpressed := pressed hparse
  generalize (e.press stroke).mode = after, (e.press stroke).desk = desk at hpressed h
  cases hpressed with
  | idle => exact .inr h
  | @goesOn action after reaction applied =>
    have hdesk : reaction.desk = e.desk.after ⟨e.config, mode.isCommandMode⟩ action := by
      rw [Desk.after, applied]
    rw [hdesk] at h
    exact Desk.mem_saved_after h
  | @ends action after reaction event applied =>
    have hdesk : reaction.desk = e.desk.after ⟨e.config, mode.isCommandMode⟩ action := by
      rw [Desk.after, applied]
    change state ∈ reaction.desk.buffer.saved at h
    rw [hdesk] at h
    exact Desk.mem_saved_after h

/-- **What is saved has been in the line**, after some of the keys that were typed. -/
theorem exists_typed_of_mem_saved (hnone : e.desk.buffer.saved = []) {strokes : List Stroke}
    {state : Text × Nat} (h : state ∈ (strokes.foldl press e).desk.buffer.saved) :
    ∃ typed, typed <+: strokes ∧
      state =
        ((typed.foldl press e).desk.buffer.text, (typed.foldl press e).desk.buffer.cursor) := by
  induction strokes using List.reverseRecOn with
  | nil =>
    rw [List.foldl_nil, hnone] at h
    cases h
  | append_singleton typed stroke ih =>
    rw [List.foldl_append] at h
    rcases mem_saved_press h with rfl | hearlier
    · exact ⟨typed, List.prefix_append typed [stroke], rfl⟩
    · obtain ⟨first, hprefix, hstate⟩ := ih hearlier
      exact ⟨first, hprefix.trans (List.prefix_append typed [stroke]), hstate⟩

/-- **Undoing goes on across the beginning of a line.**  Whatever it brings back was in the line
before.  The saved states stay when a line ends, so undoing on the line that begins then walks back
along those of the lines before, and rings the bell exactly if there are none. -/
theorem undo_on_next_line (hnone : e.desk.buffer.saved = []) (strokes : List Stroke) :
    let now := strokes.foldl press e
    (∀ state ∈ now.desk.buffer.saved, ∃ typed, typed <+: strokes ∧
      state =
        ((typed.foldl press e).desk.buffer.text, (typed.foldl press e).desk.buffer.cursor)) ∧
      ∀ (stroke : Stroke) (outcome : Outcome) (event : Event),
        (now.handle stroke).2 = .ok (some outcome) → outcome.event? = some event →
          let fresh := (now.handle stroke).1.desk
          fresh.buffer.text = [] ∧ fresh.buffer.saved = now.desk.buffer.saved ∧
            ∀ (setting : Setting) (count : Nat), setting.commandMode = false →
              (∀ times, ((fun d => d.after setting (.plain .undo count))^[times] fresh).buffer =
                fresh.buffer.back times) ∧
              (fresh.run setting .undo count = fresh.refused setting ↔
                now.desk.buffer.saved = []) := by
  intro now
  refine ⟨fun state hstate => exists_typed_of_mem_saved hnone hstate, ?_⟩
  intro stroke outcome event h hevent
  obtain ⟨mode, last, hending, -, hdesk⟩ := ends_of_outcome h hevent
  change (now.handle stroke).1.desk = last.nextLine event at hdesk
  have hsaved : (now.handle stroke).1.desk.buffer.saved = now.desk.buffer.saved := by
    rw [hdesk]
    exact hending.saved
  have htext : (now.handle stroke).1.desk.buffer.text = [] := by
    rw [hdesk]
    rfl
  refine ⟨htext, hsaved, fun setting count hmode => ⟨fun times => ?_, ?_⟩⟩
  · exact Desk.buffer_iterate_undo hmode count times _
  · rw [Desk.run_undo_eq_refused_iff, hsaved]

/-- Three keys, a commit, and three times back on the line that follows. -/
theorem undo_on_line_after_commit :
    let strokes := [Stroke.ofChar 'a', .ofChar 'b', .ofChar 'c']
    let now := strokes.foldl press (new .default (.reliable .utf8))
    let fresh := (now.handle (.ofChar '\r')).1.desk
    now.desk.buffer.text = ['a', 'b', 'c'] ∧ fresh.buffer.text = [] ∧
      fresh.buffer.saved = [(['a', 'b'], 2), (['a'], 1), ([], 0)] ∧
        ∀ times, ((fun d => d.after ⟨.default, false⟩ (.plain .undo 1))^[times] fresh).buffer =
          fresh.buffer.back times := by
  intro strokes now fresh
  have houtcome : (now.handle (.ofChar '\r')).2 = .ok (some (.commit ['a', 'b', 'c'])) := by
    decide +kernel
  have hsaved : now.desk.buffer.saved = [(['a', 'b'], 2), (['a'], 1), ([], 0)] := by decide +kernel
  obtain ⟨htext, hkept, hundone⟩ :=
    (undo_on_next_line (e := new .default (.reliable .utf8)) rfl strokes).2 _ _ _ houtcome rfl
  exact ⟨by decide +kernel, htext, hkept.trans hsaved, (hundone ⟨.default, false⟩ 1 rfl).1⟩

/-- Undoing on a line in which nothing was typed yet: no bell, and the line before is there again
but for its last character. -/
theorem write_undo_reaches_line_before :
    let e := ((new .default (.reliable .utf8)).write [0x61, 0x62, 0x63, 0x0D]).1
    e.desk.buffer.text = [] ∧ e.desk.history.entries = [['a', 'b', 'c']] ∧
      (e.write [0x1F]).2.toOption = some [.proceed] ∧
        (e.write [0x1F]).1.desk.buffer.text = ['a', 'b'] := by
  decide +kernel

end Editor

end PromptLine
