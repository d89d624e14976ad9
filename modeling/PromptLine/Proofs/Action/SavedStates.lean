import PromptLine.Proofs.Action.CommandCursor

/-!
# What can be undone

An action that changes the text saves the line first, as it finds it.  So the saved states are a
record of the edits, and undoing walks back along it.  The actions that put another line in the
place of the one at hand are left out of this: fetching from the history and searching it save
nothing, and undoing takes a state away.

Whether an action saves the line does not hang on what was saved before.  That is what makes it
possible to speak of the states that an action saves, although the stack is bounded and may look the
same afterwards: they are what is there if nothing was there before.
-/

namespace PromptLine

namespace LineBuffer

/-! ## The saved states of a line -/

/-- The line with other saved states. -/
def withSaved (b : LineBuffer) (saved : List (Text × Nat)) : LineBuffer := { b with saved := saved }

@[simp] theorem saved_delete (b : LineBuffer) (distance : Int) :
    (b.delete distance).saved = b.saved := by
  rw [delete]
  split <;> rfl

@[simp] theorem saved_settle (commandMode : Bool) (b : LineBuffer) :
    (b.settle commandMode).saved = b.saved := by
  rw [settle]
  split <;> rfl

/-- The line as it was a number of saved states ago, or as far back as they go. -/
def back (b : LineBuffer) (count : Nat) : LineBuffer :=
  match (b.saved.take count).getLast? with
  | none => b
  | some (text, cursor) => { b with text := text, cursor := cursor, saved := b.saved.drop count }

theorem back_of_saved_nil {b : LineBuffer} (h : b.saved = []) (count : Nat) : b.back count = b := by
  rw [back, h, List.take_nil]
  rfl

theorem back_of_getLast? {b : LineBuffer} {count : Nat} {text : Text} {cursor : Nat}
    (h : (b.saved.take count).getLast? = some (text, cursor)) :
    b.back count = { b with text := text, cursor := cursor, saved := b.saved.drop count } := by
  rw [back, h]

/-- Going back one state, and then on from there. -/
theorem back_succ (b : LineBuffer) (count : Nat) : b.back (count + 1) = (b.back 1).back count := by
  cases hsaved : b.saved with
  | nil => rw [back_of_saved_nil hsaved, back_of_saved_nil hsaved, back_of_saved_nil hsaved]
  | cons state rest =>
    obtain ⟨text, cursor⟩ := state
    have hone : b.back 1 = { b with text := text, cursor := cursor, saved := rest } := by
      rw [back, hsaved]
      rfl
    rw [hone]
    cases hlast : (rest.take count).getLast? with
    | some last =>
      obtain ⟨lastText, lastCursor⟩ := last
      have hmore : (b.saved.take (count + 1)).getLast? = some (lastText, lastCursor) := by
        rw [hsaved, List.take_succ_cons, List.getLast?_cons, hlast]
        rfl
      rw [back_of_getLast? hmore, hsaved, back_of_getLast? hlast]
      rfl
    | none =>
      have hmore : (b.saved.take (count + 1)).getLast? = some (text, cursor) := by
        rw [hsaved, List.take_succ_cons, List.getLast?_cons, hlast]
        rfl
      -- there is nothing to go back to, so nothing more is dropped
      have hrest : rest.drop count = rest := by
        have hnil := List.getLast?_eq_none_iff.mp hlast
        calc rest.drop count = rest.take count ++ rest.drop count := by rw [hnil, List.nil_append]
          _ = rest := List.take_append_drop count rest
      rw [back_of_getLast? hmore, back, hlast, hsaved, List.drop_succ_cons, hrest]

end LineBuffer

namespace Desk

/-! ## One action after another -/

/-- The desk after an action. -/
def after (d : Desk) (setting : Setting) (action : Action) : Desk := (action.apply setting d).2.desk

/-- The desk after actions, each with the circumstances under which it is carried out. -/
def afterAll (d : Desk) (steps : List (Setting × Action)) : Desk :=
  steps.foldl (fun d step => d.after step.1 step.2) d

@[simp] theorem afterAll_nil (d : Desk) : d.afterAll [] = d := rfl

@[simp] theorem afterAll_cons (d : Desk) (step : Setting × Action)
    (rest : List (Setting × Action)) :
    d.afterAll (step :: rest) = (d.after step.1 step.2).afterAll rest := rfl

/-- Undoing goes back one state. -/
theorem buffer_after_undo (d : Desk) {setting : Setting} (hmode : setting.commandMode = false)
    (count : Nat) : (d.after setting (.plain .undo count)).buffer = d.buffer.back 1 := by
  change (d.run setting .undo count).desk.buffer = _
  rw [run]
  cases hsaved : d.buffer.saved with
  | nil =>
    rw [LineBuffer.undo?, hsaved, LineBuffer.back_of_saved_nil hsaved]
    rfl
  | cons state rest =>
    rw [LineBuffer.undo?, hsaved, hmode, LineBuffer.back, hsaved]
    rfl

/-- **Undoing again and again** walks back along the saved states. -/
theorem buffer_iterate_undo {setting : Setting} (hmode : setting.commandMode = false) (count : Nat)
    (times : Nat) (d : Desk) :
    ((fun d => d.after setting (.plain .undo count))^[times] d).buffer = d.buffer.back times := by
  induction times generalizing d with
  | zero => rfl
  | succ times ih =>
    rw [Function.iterate_succ_apply, ih, buffer_after_undo d hmode, ← LineBuffer.back_succ]

/-! ## What a change saves -/

/-- The desk with other saved states of its line. -/
def withSaved (d : Desk) (saved : List (Text × Nat)) : Desk :=
  d.withBuffer (d.buffer.withSaved saved)

/-- Whatever was saved before, a change either saves the line as it was, or saves nothing and leaves
the text alone. -/
inductive Records (d : Desk) (change : Desk → Desk) : Prop
  | saves (saved : ∀ saved, (change (d.withSaved saved)).buffer.saved =
      ((d.buffer.text, d.buffer.cursor) :: saved).take LineBuffer.undoLimit)
  | rests (saved : ∀ saved, (change (d.withSaved saved)).buffer.saved = saved)
      (text : ∀ saved, (change (d.withSaved saved)).buffer.text = d.buffer.text)

variable {d : Desk} {change other : Desk → Desk}

theorem records_id (d : Desk) : d.Records id := .rests (fun _ => rfl) fun _ => rfl

/-- Which of two changes is made may hang on anything but the saved states. -/
theorem Records.congr (h : d.Records change)
    (heq : ∀ saved, other (d.withSaved saved) = change (d.withSaved saved)) : d.Records other := by
  cases h with
  | saves saved => exact .saves fun s => (congrArg (·.buffer.saved) (heq s)).trans (saved s)
  | rests saved text =>
    exact .rests (fun s => (congrArg (·.buffer.saved) (heq s)).trans (saved s))
      fun s => (congrArg (·.buffer.text) (heq s)).trans (text s)

/-- Whatever happens to the cursor afterwards makes no difference. -/
theorem Records.moved (h : d.Records change) {f : LineBuffer → LineBuffer}
    (hf : ∀ b, (f b).saved = b.saved ∧ (f b).text = b.text) :
    d.Records fun d => (change d).withBuffer (f (change d).buffer) := by
  cases h with
  | saves saved => exact .saves fun s => (hf _).1.trans (saved s)
  | rests saved text =>
    exact .rests (fun s => (hf _).1.trans (saved s)) fun s => (hf _).2.trans (text s)

theorem Records.settle (h : d.Records change) (commandMode : Bool) :
    d.Records fun d => (change d).settle commandMode :=
  h.moved fun b => ⟨b.saved_settle commandMode, b.text_settle commandMode⟩

/-! ## Ranges -/

theorem records_cut (d : Desk) (start target : Nat) : d.Records (·.cut start target) := by
  refine .saves fun saved => ?_
  rw [cut]
  dsimp only [withBuffer]
  rw [LineBuffer.saved_delete, buffer_keep]
  rfl

theorem records_keep (d : Desk) (first last : Nat) : d.Records (·.keep first last) :=
  .rests (fun saved => (congrArg LineBuffer.saved ((d.withSaved saved).buffer_keep first last) :))
    fun saved => (congrArg LineBuffer.text ((d.withSaved saved).buffer_keep first last) :)

theorem records_changeCase (d : Desk) (commandMode : Bool) (operation : Status) (first last : Nat) :
    d.Records (·.changeCase commandMode operation first last) := by
  refine .saves fun saved => ?_
  rw [changeCase]
  cases commandMode <;> exact LineBuffer.saved_delete _ _

/-- A change that is made only on a condition that has nothing to do with the saved states. -/
theorem Records.unless (h : d.Records change) (condition : Prop) [Decidable condition] :
    d.Records fun d => if condition then d else change d := by
  by_cases hcondition : condition
  · exact d.records_id.congr fun _ => if_pos hcondition
  · exact h.congr fun _ => if_neg hcondition

theorem records_applyRange (d : Desk) (commandMode : Bool) (operation : Status)
    (start target : Nat) : d.Records (·.applyRange commandMode operation start target) := by
  unfold applyRange
  refine Records.settle ?_ commandMode
  let first := min (min start d.buffer.length) (min target d.buffer.length)
  let last := max (min start d.buffer.length) (min target d.buffer.length)
  have hcut := (d.records_cut (min start d.buffer.length) (min target d.buffer.length)).unless
    (first = last)
  have hcase := (d.records_changeCase commandMode operation first last).unless (first = last)
  have hcopy := ((d.records_keep first last).unless (first = last)).moved
    (f := (·.place first)) fun b => ⟨rfl, rfl⟩
  cases operation with
  | delete => exact hcut.congr fun _ => rfl
  | change => exact hcut.congr fun _ => rfl
  | yank => exact hcopy.congr fun _ => rfl
  | upCase => exact hcase.congr fun _ => rfl
  | downCase => exact hcase.congr fun _ => rfl
  | capitalize => exact hcase.congr fun _ => rfl
  | _ => exact .rests (fun _ => rfl) fun _ => rfl

theorem records_range (d : Desk) (commandMode : Bool) (r : RangeAction) :
    d.Records (r.apply commandMode) := by
  have hrange := d.records_applyRange commandMode r.operation (r.ends d.buffer).1
    (r.ends d.buffer).2
  by_cases hcopies : r.motion = .wholeLine ∧ r.operation = .yank
  · have hplaced := (hrange.moved (f := (·.place d.buffer.cursor)) fun b => ⟨rfl, rfl⟩).settle
      commandMode
    exact hplaced.congr fun _ => if_pos hcopies
  · exact hrange.congr fun _ => if_neg hcopies

/-! ## Plain commands -/

theorem records_putBack (d : Desk) (setting : Setting) (command : Command) (count : Nat) :
    d.Records fun d => (d.putBack setting command count).desk := by
  cases hkills : d.kills.current? with
  | none =>
    refine d.records_id.congr fun saved => ?_
    rw [putBack, show (d.withSaved saved).kills.current? = none from hkills]
    rfl
  | some text =>
    refine .saves fun saved => ?_
    rw [putBack, show (d.withSaved saved).kills.current? = some text from hkills]
    dsimp only [edited, withBuffer]
    split <;> split <;> rfl

theorem records_transpose (d : Desk) (setting : Setting) :
    d.Records fun d => (d.transpose setting).desk := by
  by_cases hfew : d.buffer.length < 2 ∨ d.buffer.cursor = 0
  · exact d.records_id.congr fun _ => congrArg Reaction.desk (if_pos hfew)
  · exact .saves fun _ => congrArg (fun r : Reaction => r.desk.buffer.saved) (if_neg hfew)

theorem records_toggle (d : Desk) (setting : Setting) (count : Nat) :
    d.Records fun d => (d.toggle setting count).desk := by
  by_cases hempty : d.buffer.cursor = min (d.buffer.cursor + count) d.buffer.length
  · exact d.records_id.congr fun _ => congrArg Reaction.desk (if_pos hempty)
  · refine .saves fun saved => ?_
    refine (congrArg (fun r : Reaction => r.desk.buffer.saved) (if_neg hempty)).trans ?_
    exact (LineBuffer.saved_settle _ _).trans (LineBuffer.saved_delete _ _)

end Desk

/-! ## Commands that go through the history -/

/-- Commands that show another line of the history. -/
def Command.fetches : Command → Bool
  | previousHistory | nextHistory | beginningOfHistory | endOfHistory => true
  | _ => false

namespace Desk

/-- **What a plain command saves**, unless it goes through the history or undoes something. -/
theorem records_run (d : Desk) (setting : Setting) {command : Command} (count : Nat)
    (hundo : command ≠ .undo) (hfetches : command.fetches = false) :
    d.Records fun d => (d.run setting command count).desk := by
  cases command with
  | deleteCharOrEof =>
    by_cases hempty : d.buffer.length = 0
    · exact d.records_id.congr fun _ => congrArg Reaction.desk (if_pos hempty)
    · have hdelete := d.records_range setting.commandMode ⟨.deleteChar, .forwardChar, .delete, 1⟩
      exact hdelete.congr fun _ => congrArg Reaction.desk (if_neg hempty)
  | yank => exact d.records_putBack setting .yank count
  | viPasteAfter => exact d.records_putBack setting .viPasteAfter count
  | viPasteBefore => exact d.records_putBack setting .viPasteBefore count
  | transposeChars => exact d.records_transpose setting
  | viToggleCase => exact d.records_toggle setting count
  | undo => exact absurd rfl hundo
  | previousHistory => cases hfetches
  | nextHistory => cases hfetches
  | beginningOfHistory => cases hfetches
  | endOfHistory => cases hfetches
  | _ => exact .rests (fun _ => rfl) fun _ => rfl

end Desk

/-! ## All actions -/

namespace Action

/-- The command of an action that goes through the history. -/
def fetch? : Action → Option Command
  | plain command _ => if command.fetches then some command else none
  | _ => none

/-- Actions after which undoing leads back to the line as it was: all but those that put another
line in its place, or that undo something themselves. -/
def Undoable : Action → Prop
  | plain command _ => command ≠ .undo ∧ command.fetches = false
  | focus (.search _) => False
  | _ => True

instance : DecidablePred Undoable := fun action =>
  match action with
  | plain command _ => inferInstanceAs (Decidable (command ≠ .undo ∧ command.fetches = false))
  | focus (.search _) => isFalse id
  | focus (.quoted _) => isTrue trivial
  | insert _ => isTrue trivial
  | insertText _ => isTrue trivial
  | replaceChar _ => isTrue trivial
  | range _ => isTrue trivial

/-- **What an action saves.** -/
theorem Undoable.records {action : Action} (h : action.Undoable) (setting : Setting) (d : Desk) :
    d.Records (·.after setting action) := by
  cases action with
  | insert c => exact .saves fun _ => rfl
  | insertText text => exact .saves fun _ => rfl
  | replaceChar c =>
    by_cases hunder : d.buffer.cursor < d.buffer.length
    · refine .saves fun saved => ?_
      refine (congrArg LineBuffer.saved (if_pos hunder)).trans ?_
      exact LineBuffer.saved_delete _ _
    · exact d.records_id.congr fun saved =>
        congrArg (d.withSaved saved).withBuffer (if_neg hunder)
  | plain command count => exact d.records_run setting count h.1 h.2
  | range r => exact d.records_range setting.commandMode r
  | focus f =>
    cases f with
    | search s => cases h
    | quoted q =>
      cases hpending : q.pending with
      | none =>
        refine d.records_id.congr fun saved => ?_
        change (q.apply _).2.desk = _
        rw [QuotedInsert.apply, hpending]
        rfl
      | some stroke =>
        refine .saves fun saved => ?_
        change (q.apply _).2.desk.buffer.saved = _
        rw [QuotedInsert.apply, hpending]
        rfl

/-- The states of the line that an action saves: what is there after it if nothing was before. -/
def snapshots (action : Action) (setting : Setting) (d : Desk) : List (Text × Nat) :=
  ((d.withSaved []).after setting action).buffer.saved

/-- **An action saves the line as it was, or leaves the text alone.** -/
theorem Undoable.snapshots_or {action : Action} (h : action.Undoable) (setting : Setting)
    (d : Desk) :
    (action.snapshots setting d = [(d.buffer.text, d.buffer.cursor)] ∧
        (d.after setting action).buffer.saved =
          ((d.buffer.text, d.buffer.cursor) :: d.buffer.saved).take LineBuffer.undoLimit) ∨
      action.snapshots setting d = [] ∧ (d.after setting action).buffer.saved = d.buffer.saved ∧
        (d.after setting action).buffer.text = d.buffer.text := by
  cases h.records setting d with
  | saves saved => exact .inl ⟨saved [], saved d.buffer.saved⟩
  | rests saved text => exact .inr ⟨saved [], saved d.buffer.saved, text d.buffer.saved⟩

theorem Undoable.text_of_snapshots_nil {action : Action} {setting : Setting} {d : Desk}
    (h : action.Undoable) (hnone : action.snapshots setting d = []) :
    (d.after setting action).buffer.text = d.buffer.text := by
  rcases h.snapshots_or setting d with ⟨hsaves, -⟩ | ⟨-, -, htext⟩
  · rw [hnone] at hsaves
    cases hsaves
  · exact htext

end Action

/-! ## Where saved states come from -/

theorem Action.eq_plain_of_fetch? {action : Action} {command : Command}
    (h : action.fetch? = some command) :
    command.fetches = true ∧ ∃ count, action = .plain command count := by
  cases action with
  | plain other count =>
    rw [fetch?] at h
    split at h
    · next hfetches =>
      cases h
      exact ⟨hfetches, count, rfl⟩
    · cases h
  | _ => cases h

/-- A search saves nothing, even where it puts another line into the buffer. -/
theorem Search.saved_apply (setting : Setting) (s : Search) (d : Desk) :
    (s.apply setting d).2.desk.buffer.saved = d.buffer.saved := by
  have hleft : (s.left d.buffer).saved = d.buffer.saved := by
    rw [left]
    split <;> rfl
  cases hstep : s.step with
  | start => rw [apply, hstep]; rfl
  | older => rw [apply, hstep]; dsimp only; rw [buffer_lookOn]
  | newer => rw [apply, hstep]; dsimp only; rw [buffer_lookOn]
  | shorten => rw [buffer_apply_shorten setting hstep]
  | abort => rw [apply, hstep]; rfl
  | _ => rw [apply, hstep]; exact hleft

namespace Desk

/-- Going through the history saves nothing. -/
theorem saved_after_fetch {action : Action} {command : Command}
    (h : action.fetch? = some command) (setting : Setting) (d : Desk) :
    (d.after setting action).buffer.saved = d.buffer.saved := by
  have hshown : ∀ (d : Desk) (history : History) (line : Option Text),
      (showLine setting { d with history := history } line).desk.buffer.saved = d.buffer.saved := by
    intro d history line
    cases line with
    | none => rfl
    | some line => exact LineBuffer.saved_settle _ _
  have hkept : d.keepDraft.buffer.saved = d.buffer.saved := by rw [buffer_keepDraft]
  obtain ⟨hfetches, count, rfl⟩ := Action.eq_plain_of_fetch? h
  cases command with
  | previousHistory => exact (hshown d.keepDraft _ _).trans hkept
  | beginningOfHistory => exact (hshown d.keepDraft _ _).trans hkept
  | nextHistory => exact hshown d _ _
  | endOfHistory => exact hshown d _ _
  | _ => cases hfetches

theorem saved_after_undo (setting : Setting) (count : Nat) (d : Desk) :
    (d.after setting (.plain .undo count)).buffer.saved = d.buffer.saved.tail := by
  change (d.run setting .undo count).desk.buffer.saved = _
  rw [run]
  cases hsaved : d.buffer.saved with
  | nil => rw [LineBuffer.undo?, hsaved]; exact hsaved
  | cons state rest => rw [LineBuffer.undo?, hsaved]; exact LineBuffer.saved_settle _ _

/-- **Where saved states come from.**  A state that is saved after an action was saved before it,
or is the line as the action found it. -/
theorem mem_saved_after {setting : Setting} {action : Action} {d : Desk} {state : Text × Nat}
    (h : state ∈ (d.after setting action).buffer.saved) :
    state = (d.buffer.text, d.buffer.cursor) ∨ state ∈ d.buffer.saved := by
  by_cases hundoable : action.Undoable
  · rcases hundoable.snapshots_or setting d with ⟨-, hsaved⟩ | ⟨-, hsaved, -⟩
    · rw [hsaved] at h
      exact List.mem_cons.mp (List.mem_of_mem_take h)
    · exact .inr (hsaved ▸ h)
  · cases action with
    | plain command count =>
      by_cases hundo : command = .undo
      · rw [hundo, saved_after_undo] at h
        exact .inr (List.mem_of_mem_tail h)
      · have hfetches : command.fetches = true := by
          by_contra hother
          exact hundoable ⟨hundo, Bool.eq_false_iff.mpr hother⟩
        have hfetch : (Action.plain command count).fetch? = some command := if_pos hfetches
        rw [saved_after_fetch hfetch] at h
        exact .inr h
    | focus f =>
      cases f with
      | quoted q => exact absurd trivial hundoable
      | search s =>
        change state ∈ (s.apply setting d).2.desk.buffer.saved at h
        rw [s.saved_apply] at h
        exact .inr h
    | _ => exact absurd trivial hundoable

/-! ## Sequences of actions -/

/-- The states that a sequence of actions saves, the latest first. -/
def snapshots (d : Desk) : List (Setting × Action) → List (Text × Nat)
  | [] => []
  | step :: rest => (d.after step.1 step.2).snapshots rest ++ step.2.snapshots step.1 d

variable {d : Desk} {steps : List (Setting × Action)}

/-- As far as the stack goes, the saved states are those that were saved on the way, and then those
that were there before. -/
theorem take_saved_afterAll (hsteps : ∀ step ∈ steps, step.2.Undoable) {count : Nat}
    (hcount : count ≤ LineBuffer.undoLimit) :
    (d.afterAll steps).buffer.saved.take count =
      (d.snapshots steps ++ d.buffer.saved).take count := by
  induction steps generalizing d with
  | nil => rfl
  | cons step rest ih =>
    have hrest := ih (d := d.after step.1 step.2) fun other hother =>
      hsteps other (List.mem_cons_of_mem step hother)
    have hfirst : ∀ limit ≤ LineBuffer.undoLimit,
        (d.after step.1 step.2).buffer.saved.take limit =
          (step.2.snapshots step.1 d ++ d.buffer.saved).take limit := by
      intro limit hlimit
      rcases (hsteps step List.mem_cons_self).snapshots_or step.1 d with
        ⟨hsaves, hsaved⟩ | ⟨hnone, hsaved, -⟩
      · rw [hsaves, hsaved, List.take_take, Nat.min_eq_left hlimit]
        rfl
      · rw [hnone, hsaved, List.nil_append]
    rw [afterAll_cons, hrest, snapshots, List.take_append, List.append_assoc, List.take_append,
      hfirst _ (Nat.le_trans (Nat.sub_le _ _) hcount)]

/-- The first of the states that a sequence saves is the line as it was before the first action that
saves anything. -/
theorem exists_first_snapshot (hsteps : ∀ step ∈ steps, step.2.Undoable)
    (hne : d.snapshots steps ≠ []) :
    ∃ before setting action behind, steps = before ++ (setting, action) :: behind ∧
      d.snapshots before = [] ∧ action.snapshots setting (d.afterAll before) ≠ [] ∧
        (d.snapshots steps).getLast? =
          some ((d.afterAll before).buffer.text, (d.afterAll before).buffer.cursor) := by
  induction steps generalizing d with
  | nil => exact absurd rfl hne
  | cons step rest ih =>
    obtain ⟨setting, action⟩ := step
    rcases (hsteps (setting, action) List.mem_cons_self).snapshots_or setting d with
      ⟨hsaves, -⟩ | ⟨hnone, -⟩
    · refine ⟨[], setting, action, rest, rfl, rfl, ?_, ?_⟩
      · rw [afterAll_nil, hsaves]
        exact List.cons_ne_nil _ _
      · rw [snapshots, hsaves, List.getLast?_append]
        rfl
    · rw [snapshots, hnone, List.append_nil] at hne ⊢
      obtain ⟨before, other, saving, behind, rfl, hbefore, hsaving, hlast⟩ :=
        ih (fun other hother => hsteps other (List.mem_cons_of_mem _ hother)) hne
      refine ⟨(setting, action) :: before, other, saving, behind, rfl, ?_, hsaving, hlast⟩
      rw [snapshots, hbefore, hnone]
      rfl

/-- **Undoing restores the line.**  An action saves the line as it was, or leaves the text alone.
So undoing once for each state that a sequence of actions has saved restores the line and the cursor
as they were before the first action that saved anything, as long as the stack holds them all. -/
theorem undo_restores_line :
    (∀ (setting : Setting) (action : Action) (d : Desk), action.Undoable →
      (action.snapshots setting d = [(d.buffer.text, d.buffer.cursor)] ∧
          (d.after setting action).buffer.saved =
            ((d.buffer.text, d.buffer.cursor) :: d.buffer.saved).take LineBuffer.undoLimit) ∨
        action.snapshots setting d = [] ∧ (d.after setting action).buffer.saved = d.buffer.saved ∧
          (d.after setting action).buffer.text = d.buffer.text) ∧
      ∀ (d : Desk) (steps : List (Setting × Action)), (∀ step ∈ steps, step.2.Undoable) →
        1 ≤ (d.snapshots steps).length →
        (d.snapshots steps).length ≤ LineBuffer.undoLimit →
        ∃ before setting action behind, steps = before ++ (setting, action) :: behind ∧
          d.snapshots before = [] ∧ action.snapshots setting (d.afterAll before) ≠ [] ∧
            ∀ (undoing : Setting) (count : Nat), undoing.commandMode = false →
              let undone := (fun d => d.after undoing (.plain .undo count))^[
                (d.snapshots steps).length] (d.afterAll steps)
              undone.buffer.text = (d.afterAll before).buffer.text ∧
                undone.buffer.cursor = (d.afterAll before).buffer.cursor := by
  refine ⟨fun setting action d h => h.snapshots_or setting d, ?_⟩
  intro d steps hsteps hpos hlimit
  obtain ⟨before, setting, action, behind, hsplit, hbefore, hsaving, hlast⟩ :=
    exists_first_snapshot hsteps (List.length_pos_iff.mp hpos)
  refine ⟨before, setting, action, behind, hsplit, hbefore, hsaving, ?_⟩
  intro undoing count hmode
  have hsaved := take_saved_afterAll (d := d) hsteps hlimit
  rw [List.take_left' rfl] at hsaved
  dsimp only
  rw [buffer_iterate_undo hmode, LineBuffer.back_of_getLast? (hsaved ▸ hlast)]
  exact ⟨rfl, rfl⟩

/-- Two edits among two motions, on a stack that is full already: it takes two steps back to the
line as it was after the first motion. -/
theorem undo_restores_full_stack :
    let setting : Setting := ⟨.default, false⟩
    let d : Desk :=
      ⟨⟨['a', 'b'], 2, List.replicate 100 (['z'], 1), false⟩, .empty 10, .empty 10⟩
    let steps : List (Setting × Action) :=
      [(setting, .range ⟨.backwardChar, .backwardChar, .move, 1⟩), (setting, .insert 'x'),
        (setting, .range ⟨.beginningOfLine, .lineStart, .move, 1⟩),
        (setting, .range ⟨.deleteChar, .forwardChar, .delete, 1⟩)]
    (∀ step ∈ steps, step.2.Undoable) ∧ (d.snapshots steps).length = 2 ∧
      ∃ before setting action behind, steps = before ++ (setting, action) :: behind ∧
        d.snapshots before = [] ∧ action.snapshots setting (d.afterAll before) ≠ [] ∧
          ∀ (undoing : Setting) (count : Nat), undoing.commandMode = false →
            let undone := (fun d => d.after undoing (.plain .undo count))^[
              (d.snapshots steps).length] (d.afterAll steps)
            undone.buffer.text = (d.afterAll before).buffer.text ∧
              undone.buffer.cursor = (d.afterAll before).buffer.cursor := by
  intro setting d steps
  have hsteps : ∀ step ∈ steps, step.2.Undoable := by decide +kernel
  have hlength : (d.snapshots steps).length = 2 := by decide +kernel
  exact ⟨hsteps, hlength, undo_restores_line.2 d steps hsteps (by rw [hlength]; decide)
    (by rw [hlength]; decide)⟩

end Desk

end PromptLine
