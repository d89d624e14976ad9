import PromptLine.Proofs.Editor.LineEnds
import PromptLine.Proofs.Editor.MaskedLines

/-!
# What a masked line leaves behind

A line that is not to be seen enters neither the entries of the history nor the kill ring.  There is
a third place.  A command that leaves the line for an older one hands it over to the history first,
as the draft to come back to, and it does so without asking whether the line may be seen.  Nothing
takes the draft away again: no other action does, and neither does the end of the line.

So whether a masked line is left behind hangs on the keys that were typed.  If none of them left the
line, the draft is the one from before.  If some did, it is the line as the last of them found it,
and the next editor that is given the history can show it.
-/

namespace PromptLine

/-- The commands that leave the line for an older one, and hand it over first. -/
def Command.leavesLine : Command → Bool
  | previousHistory | beginningOfHistory => true
  | _ => false

/-- The action leaves the line for an older one. -/
def Action.leavesLine : Action → Bool
  | plain command _ => command.leavesLine
  | _ => false

/-! ## The draft of a history -/

namespace History

variable (h : History)

@[simp] theorem draft_previous : h.previous.1.draft = h.draft := by
  rw [previous]
  split <;> rfl

@[simp] theorem draft_setDirection (direction : Direction) :
    (h.setDirection direction).draft = h.draft := by
  rw [setDirection]
  split <;> rfl

@[simp] theorem draft_search (term : Text) : (h.search term).1.draft = h.draft := by
  rw [search]
  split <;> rfl

end History

/-- A search leaves the draft alone. -/
theorem Search.draft_apply (s : Search) (setting : Setting) (d : Desk) :
    (s.apply setting d).2.desk.history.draft = d.history.draft := by
  have hlook : ∀ s : Search, (s.look setting d.history).2.1.draft = d.history.draft := by
    intro s
    have hsearched := (d.history.setDirection s.direction).draft_search s.term
    rw [History.draft_setDirection] at hsearched
    rw [look]
    split
    · exact d.history.draft_setDirection s.direction
    · split
      all_goals
        next hsearch =>
        rw [hsearch] at hsearched
        exact hsearched
  rw [apply]
  split
  · exact d.history.draft_setDirection s.direction
  · exact hlook s
  · exact hlook s
  · dsimp only
    split
    · rfl
    · exact hlook _
  all_goals rfl

namespace Desk

variable (d : Desk) (setting : Setting)

/-- Showing a line leaves the draft alone. -/
theorem draft_showLine (line : Option Text) :
    (showLine setting d line).desk.history.draft = d.history.draft := by
  cases line <;> rfl

theorem draft_keepDraft :
    d.keepDraft.history.draft =
      if d.history.isOnDraft then d.buffer.text else d.history.draft := by
  rw [keepDraft]
  split <;> rfl

/-- **What an action makes of the draft.**  An action that leaves the line hands it over, and no
other action touches the draft. -/
theorem draft_after (action : Action) :
    (d.after setting action).history.draft =
      if d.history.isOnDraft = true ∧ action.leavesLine = true then d.buffer.text
      else d.history.draft := by
  have hstays : ∀ {after : Desk}, after.history.draft = d.history.draft → after.history.draft =
      if d.history.isOnDraft = true ∧ false = true then d.buffer.text else d.history.draft := by
    intro after hafter
    rw [hafter, if_neg fun h => Bool.false_ne_true h.2]
  cases action with
  | plain command count =>
    change (d.run setting command count).desk.history.draft = _
    cases command with
    | previousHistory =>
      rw [run]
      dsimp only
      rw [draft_showLine, History.draft_previous, draft_keepDraft]
      simp [Action.leavesLine, Command.leavesLine]
    | beginningOfHistory =>
      rw [run]
      dsimp only
      rw [draft_showLine]
      exact d.draft_keepDraft.trans (by simp [Action.leavesLine, Command.leavesLine])
    | nextHistory =>
      rw [run]
      dsimp only
      rw [draft_showLine]
      exact hstays rfl
    | endOfHistory =>
      rw [run]
      dsimp only
      rw [draft_showLine]
      exact hstays rfl
    | _ => exact hstays (congrArg History.draft (d.history_run setting count rfl))
  | range r => exact hstays (congrArg History.draft (d.history_range setting.commandMode r))
  | focus f =>
    cases f with
    | quoted q =>
      have hundoable : (Action.focus (.quoted q)).Undoable := trivial
      exact hstays (congrArg History.draft (history_after hundoable setting d))
    | search s => exact hstays (s.draft_apply setting d)
  | _ => exact hstays rfl

/-- The end of a line leaves the draft alone. -/
theorem draft_nextLine (event : Event) : (d.nextLine event).history.draft = d.history.draft := by
  cases event with
  | line line =>
    rw [nextLine]
    dsimp only
    split <;> rfl
  | _ => rfl

/-- Going back to the draft shows it. -/
theorem text_run_endOfHistory (count : Nat) :
    (d.run setting .endOfHistory count).desk.buffer.text = d.history.draft :=
  LineBuffer.text_settle setting.commandMode (d.buffer.replace d.history.draft)

/-- So does a step to the newer side, where there is no newer entry. -/
theorem text_run_nextHistory (h : d.history.isOnDraft = true) (count : Nat) :
    (d.run setting .nextHistory count).desk.buffer.text = d.history.draft := by
  have hnone : d.history.get? d.history.size = none := List.getElem?_eq_none (Nat.le_refl _)
  have hnext : d.history.next.2 = d.history.draft := by
    rw [History.next, d.history.isOnDraft_iff.mp h, if_neg (Nat.lt_irrefl _), hnone]
    rfl
  rw [run]
  exact (LineBuffer.text_settle setting.commandMode (d.buffer.replace d.history.next.2)).trans hnext

end Desk

namespace Editor

variable {e : Editor}

/-! ## Keys that hand the line over -/

/-- The key leaves the line for an older one. -/
def handsOver (e : Editor) (stroke : Stroke) : Bool :=
  e.desk.history.isOnDraft && (e.mode.parse stroke).2.any Action.leavesLine

/-- The line as the last of the keys found it that left it, if any did. -/
def handedOver? (e : Editor) : List Stroke → Option Text
  | [] => none
  | stroke :: rest =>
    ((e.press stroke).handedOver? rest).or
      (if e.handsOver stroke then some e.desk.buffer.text else none)

/-- **What a key makes of the draft.** -/
theorem draft_press (e : Editor) (stroke : Stroke) :
    (e.press stroke).desk.history.draft =
      if e.handsOver stroke then e.desk.buffer.text else e.desk.history.draft := by
  rcases hparse : e.mode.parse stroke with ⟨mode, action?⟩
  have hpressed := pressed hparse
  rw [handsOver, hparse]
  generalize (e.press stroke).mode = after, (e.press stroke).desk = desk at hpressed ⊢
  cases hpressed with
  | idle => simp
  | @goesOn action after reaction applied =>
    have hdraft := e.desk.draft_after ⟨e.config, mode.isCommandMode⟩ action
    rw [Desk.after, applied] at hdraft
    simpa using hdraft
  | @ends action after reaction event applied =>
    have hdraft := e.desk.draft_after ⟨e.config, mode.isCommandMode⟩ action
    rw [Desk.after, applied] at hdraft
    rw [Desk.draft_nextLine]
    simpa using hdraft

/-- The draft after some keys. -/
theorem draft_foldl_press (e : Editor) (strokes : List Stroke) :
    (strokes.foldl press e).desk.history.draft =
      (e.handedOver? strokes).getD e.desk.history.draft := by
  induction strokes generalizing e with
  | nil => rfl
  | cons stroke rest ih =>
    rw [List.foldl_cons, ih, draft_press, handedOver?]
    cases (e.press stroke).handedOver? rest with
    | some text => rfl
    | none => cases e.handsOver stroke <;> rfl

/-- Nothing was handed over exactly if no key left the line. -/
theorem handedOver?_eq_none_iff {strokes : List Stroke} :
    e.handedOver? strokes = none ↔ ∀ before stroke after, strokes = before ++ stroke :: after →
      (before.foldl press e).handsOver stroke = false := by
  induction strokes generalizing e with
  | nil => simp [handedOver?]
  | cons stroke rest ih =>
    rw [handedOver?, Option.or_eq_none_iff, ih, ite_eq_right_iff]
    constructor
    · rintro ⟨hrest, hfirst⟩ before key after hsplit
      cases before with
      | nil =>
        obtain ⟨rfl, -⟩ := List.cons.inj hsplit
        exact Bool.eq_false_iff.mpr fun h => Option.some_ne_none _ (hfirst h)
      | cons first before =>
        obtain ⟨rfl, hlater⟩ := List.cons.inj hsplit
        exact hrest before key after hlater
    · intro h
      refine ⟨fun before key after hsplit => ?_, fun hfirst => ?_⟩
      · exact h (stroke :: before) key after (congrArg (stroke :: ·) hsplit)
      · cases hfirst.symm.trans (h [] stroke rest rfl)

/-- What was handed over is the line as a key found it that left it. -/
theorem exists_of_handedOver? {strokes : List Stroke} {text : Text}
    (h : e.handedOver? strokes = some text) :
    ∃ before stroke after, strokes = before ++ stroke :: after ∧
      (before.foldl press e).handsOver stroke = true ∧
        text = (before.foldl press e).desk.buffer.text := by
  induction strokes generalizing e with
  | nil => cases h
  | cons stroke rest ih =>
    rw [handedOver?] at h
    rcases Option.or_eq_some_iff.mp h with hrest | ⟨-, hfirst⟩
    · obtain ⟨before, key, after, rfl, hkey⟩ := ih hrest
      exact ⟨stroke :: before, key, after, rfl, hkey⟩
    · split at hfirst
      · next hhands =>
        cases hfirst
        exact ⟨[], stroke, rest, rfl, hhands, rfl⟩
      · cases hfirst

/-- A key that ends the line does not leave it for an older one. -/
theorem not_handsOver_of_ends {stroke : Stroke} {outcome : Outcome} {event : Event}
    (h : (e.handle stroke).2 = .ok (some outcome)) (hevent : outcome.event? = some event) :
    e.handsOver stroke = false := by
  change (e.perform stroke).2 = .ok (some outcome) at h
  rw [perform] at h
  rw [handsOver]
  generalize e.mode.parse stroke = parsed at h ⊢
  obtain ⟨mode, _ | action⟩ := parsed
  · cases h
  · have houtcome := outcome_of_carryOut h
    rw [← houtcome] at hevent
    have hstays : action.leavesLine = false := by
      cases action with
      | plain command count =>
        have hrun := Desk.event?_run e.desk ⟨e.config, mode.isCommandMode⟩ command count
        cases command with
        | previousHistory => cases hrun.symm.trans hevent
        | beginningOfHistory => cases hrun.symm.trans hevent
        | _ => rfl
      | _ => rfl
    rw [Option.any_some, hstays, Bool.and_false]

/-! ## Masked lines -/

/-- **What is left behind of a masked line.**  Whatever is typed into it, the entries of the history
and the kill ring stay as they are.  The draft is the one from before if no key left the line for an
older one, and otherwise it is the line as the last such key found it.  The end of the line changes
nothing of this, and every later line that has the history can be made to show the draft. -/
theorem draft_of_masked_line (hmasked : e.desk.buffer.masked = true) (strokes : List Stroke) :
    let now := strokes.foldl press e
    now.desk.buffer.masked = true ∧ now.desk.history.entries = e.desk.history.entries ∧
      now.desk.kills = e.desk.kills ∧
      now.desk.history.draft = (e.handedOver? strokes).getD e.desk.history.draft ∧
      (e.handedOver? strokes = none ↔ ∀ before stroke after, strokes = before ++ stroke :: after →
        (before.foldl press e).handsOver stroke = false) ∧
      (∀ text, e.handedOver? strokes = some text → ∃ before stroke after,
        strokes = before ++ stroke :: after ∧ (before.foldl press e).handsOver stroke = true ∧
          text = (before.foldl press e).desk.buffer.text) ∧
      ∀ (stroke : Stroke) (outcome : Outcome) (event : Event),
        (now.handle stroke).2 = .ok (some outcome) → outcome.event? = some event →
          let fresh := (now.handle stroke).1.desk
          fresh.buffer.text = [] ∧ fresh.history.draft = now.desk.history.draft ∧
            ∀ (d : Desk) (setting : Setting) (count : Nat), d.history = fresh.history →
              (d.run setting .endOfHistory count).desk.buffer.text = now.desk.history.draft ∧
              (d.history.isOnDraft = true →
                (d.run setting .nextHistory count).desk.buffer.text = now.desk.history.draft) := by
  intro now
  have hspares : e.desk.Spares now.desk := by
    refine List.foldlRecOn strokes press (motive := fun reached => e.desk.Spares reached.desk)
      (.refl e.desk) fun reached hreached stroke _ => ?_
    exact hreached.trans (spares_press (hreached.masked.trans hmasked) stroke)
  refine ⟨hspares.masked.trans hmasked, hspares.entries, hspares.kills hmasked,
    draft_foldl_press e strokes, handedOver?_eq_none_iff, fun _ => exists_of_handedOver?, ?_⟩
  intro stroke outcome event houtcome hevent
  have htext : (now.handle stroke).1.desk.buffer.text = [] := (line_begins houtcome hevent).1
  have hdraft : (now.handle stroke).1.desk.history.draft = now.desk.history.draft := by
    have hpress := now.draft_press stroke
    rwa [not_handsOver_of_ends houtcome hevent] at hpress
  refine ⟨htext, hdraft, fun d setting count hhistory => ⟨?_, fun hon => ?_⟩⟩
  · rw [Desk.text_run_endOfHistory, hhistory, hdraft]
  · rw [Desk.text_run_nextHistory d setting hon, hhistory, hdraft]

/-- A password that is not left is not kept. -/
theorem draft_of_password :
    let e : Editor := { new .default (.reliable .utf8) with
      desk := ⟨.empty true, .empty 10, (History.empty 10).push ['a']⟩ }
    let strokes := ['p', 'w'].map Stroke.ofChar
    let fresh := ((strokes.foldl press e).handle (.ofChar '\r')).1.desk
    e.desk.buffer.masked = true ∧ (strokes.foldl press e).desk.buffer.text = ['p', 'w'] ∧
      fresh.buffer.text = [] ∧
        ∀ (d : Desk) (setting : Setting) (count : Nat), d.history = fresh.history →
          (d.run setting .endOfHistory count).desk.buffer.text = [] := by
  intro e strokes fresh
  have hstate : (strokes.foldl press e).desk.buffer.text = ['p', 'w'] ∧
      ((strokes.foldl press e).handle (.ofChar '\r')).2 = .ok (some (.commit ['p', 'w'])) ∧
      e.handedOver? strokes = none := by
    decide +kernel
  obtain ⟨htext, houtcome, hnone⟩ := hstate
  obtain ⟨-, -, -, hdraft, -, -, hends⟩ := draft_of_masked_line (e := e) rfl strokes
  obtain ⟨hfresh, -, hshown⟩ := hends (.ofChar '\r') _ _ houtcome rfl
  rw [hnone] at hdraft
  exact ⟨rfl, htext, hfresh,
    fun d setting count hhistory => (hshown d setting count hhistory).1.trans hdraft⟩

/-- A password that is left once, where there is no older line even, is shown on the next line. -/
theorem write_next_shows_password :
    let e : Editor := { new .default (.reliable .utf8) with
      desk := ⟨.empty true, .empty 10, .empty 10⟩ }
    let committed := (e.write [0x70, 0x77, 0x10, 0x0D]).1
    e.desk.buffer.masked = true ∧ e.desk.history.draft = [] ∧
      (e.write [0x70, 0x77, 0x10, 0x0D]).2.toOption =
        some [.proceed, .proceed, .bell .audible, .commit ['p', 'w']] ∧
      committed.desk.buffer.text = [] ∧ committed.desk.history.draft = ['p', 'w'] ∧
        (committed.write [0x0E]).1.desk.buffer.text = ['p', 'w'] := by
  decide +kernel

end Editor

end PromptLine
