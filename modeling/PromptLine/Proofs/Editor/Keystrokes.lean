import PromptLine.Proofs.Editor.Runs

/-!
# What a keystroke makes of mode and desk

A keystroke is parsed by the mode, and the action it may lead to is applied to the desk.  Then the
line goes on, or it has ended and a fresh one begins.  `Pressed` lists what the answer of the mode
can lead to, with all that becomes of mode and desk; the screen, which may fail, has no say in
either.

Invariants of an editor are proved from `pressed`, and need not know how a keystroke is carried out.
What is written comes down to keystrokes: up to where its input comes from, an editor after a write
is the editor after some keystrokes.
-/

namespace PromptLine

/-- The desk on which the next line begins, after a line that ended with the given event.  Only a
line that was committed, and can be seen, enters the history. -/
def Desk.nextLine (d : Desk) (event : Event) : Desk :=
  let recorded :=
    match event with
    | .line _ => if d.buffer.masked then d.history else d.history.push d.buffer.text
    | .eof | .interrupted => d.history
  { d with buffer := d.buffer.clear, history := recorded.restartSearch }

namespace Editor

/-- The editor after a keystroke, whatever the answer to it. -/
def press (e : Editor) (stroke : Stroke) : Editor := (e.handle stroke).1

/-- What a keystroke can make of mode and desk, if it leaves the given mode and leads to the given
action. -/
inductive Pressed (e : Editor) (mode : Mode) : Option Action → Mode → Desk → Prop
  /-- The key leads to no action. -/
  | idle : Pressed e mode none mode e.desk
  /-- The key leads to an action after which the line goes on. -/
  | goesOn {action after : Action} {reaction : Reaction}
      (applied : action.apply ⟨e.config, mode.isCommandMode⟩ e.desk = (after, reaction))
      (unfinished : reaction.outcome.event? = none) :
      Pressed e mode (some action) (mode.takeBack after) reaction.desk
  /-- The key leads to an action that ends the line. -/
  | ends {action after : Action} {reaction : Reaction} {event : Event}
      (applied : action.apply ⟨e.config, mode.isCommandMode⟩ e.desk = (after, reaction))
      (finished : reaction.outcome.event? = some event) :
      Pressed e mode (some action) (mode.takeBack after).reset (reaction.desk.nextLine event)

/-! ## The inversion of a keystroke -/

theorem finishLine_mode_desk (e : Editor) (event : Event) :
    (e.finishLine event).1.mode = e.freshLine.mode ∧
      (e.finishLine event).1.desk = e.freshLine.desk := by
  have hmode : (e.freshLine.present [.newLine]).1.mode = e.freshLine.mode := rfl
  have hdesk : (e.freshLine.present [.newLine]).1.desk = e.freshLine.desk := rfl
  rw [finishLine]
  generalize e.freshLine.present [.newLine] = drawn at hmode hdesk ⊢
  rcases drawn with ⟨after, _ | error⟩ <;> exact ⟨hmode, hdesk⟩

theorem conclude_of_open (e : Editor) {outcome : Outcome} (h : outcome.event? = none)
    (banner : Option Banner) :
    (e.conclude outcome banner).1.mode = e.mode ∧
      (e.conclude outcome banner).1.desk = e.desk := by
  cases outcome with
  | commit line => cases h
  | eof => cases h
  | interrupted => cases h
  | _ => exact ⟨rfl, rfl⟩

theorem conclude_of_closed (e : Editor) {outcome : Outcome} {event : Event}
    (h : outcome.event? = some event) (banner : Option Banner) :
    (e.conclude outcome banner).1.mode = e.mode.reset ∧
      (e.conclude outcome banner).1.desk = e.desk.nextLine event := by
  cases outcome with
  | commit line =>
    cases h
    obtain ⟨hmode, hdesk⟩ := e.recordLine.finishLine_mode_desk (.line line)
    refine ⟨hmode, hdesk.trans ?_⟩
    rw [freshLine, recordLine, Desk.nextLine]
    dsimp only
    split <;> rfl
  | eof => cases h; exact e.finishLine_mode_desk .eof
  | interrupted => cases h; exact e.finishLine_mode_desk .interrupted
  | _ => cases h

theorem carryOut_fst (e : Editor) (action : Action) :
    (e.carryOut action).1 =
      ((e.applyAction action).1.conclude
        (e.applyAction action).2.1 (e.applyAction action).2.2).1 := by
  rw [carryOut]
  rcases e.applyAction action with ⟨applied, outcome, banner⟩
  dsimp only
  rcases applied.conclude outcome banner with ⟨after, _ | error⟩ <;> rfl

theorem applyAction_of_apply {e : Editor} {action after : Action} {reaction : Reaction}
    (h : action.apply e.setting e.desk = (after, reaction)) :
    e.applyAction action =
      ({ e with desk := reaction.desk, mode := e.mode.takeBack after }, reaction.outcome,
        reaction.banner) := by
  rw [applyAction, h]

/-- An action that was applied is concluded, and fails if that does. -/
theorem carryOut_of_apply {e : Editor} {action after : Action} {reaction : Reaction}
    (h : action.apply e.setting e.desk = (after, reaction)) :
    let applied : Editor := { e with desk := reaction.desk, mode := e.mode.takeBack after }
    let concluded := applied.conclude reaction.outcome reaction.banner
    (e.carryOut action).1 = concluded.1 ∧
      ∀ error, concluded.2 = some error → (e.carryOut action).2 = .error error := by
  intro applied concluded
  have hconcluded : applied.conclude reaction.outcome reaction.banner = concluded := rfl
  rw [carryOut, applyAction_of_apply h]
  dsimp only
  rw [hconcluded]
  rcases concluded with ⟨after, _ | error⟩
  · exact ⟨rfl, fun error herror => absurd herror.symm (Option.some_ne_none error)⟩
  · exact ⟨rfl, fun _ herror => congrArg Except.error (Option.some.inj herror)⟩

variable {e : Editor} {stroke : Stroke} {mode : Mode}

/-- **What a keystroke makes of mode and desk.** -/
theorem pressed {action? : Option Action} (hparse : e.mode.parse stroke = (mode, action?)) :
    Pressed e mode action? (e.press stroke).mode (e.press stroke).desk := by
  change Pressed e mode action? (e.perform stroke).1.mode (e.perform stroke).1.desk
  rw [perform, hparse]
  cases action? with
  | none => exact .idle
  | some action =>
    dsimp only
    rw [carryOut_fst]
    rcases happly : action.apply ⟨e.config, mode.isCommandMode⟩ e.desk with ⟨after, reaction⟩
    rw [applyAction_of_apply (e := { e with mode := mode }) happly]
    cases hevent : reaction.outcome.event? with
    | none =>
      obtain ⟨hmode, hdesk⟩ := conclude_of_open
        { e with desk := reaction.desk, mode := mode.takeBack after } hevent reaction.banner
      rw [hmode, hdesk]
      exact .goesOn happly hevent
    | some event =>
      obtain ⟨hmode, hdesk⟩ := conclude_of_closed
        { e with desk := reaction.desk, mode := mode.takeBack after } hevent reaction.banner
      rw [hmode, hdesk]
      exact .ends happly hevent

/-! ## Keystrokes whose meaning is known -/

/-- A key that leads to no action changes the mode only. -/
theorem press_of_idle (h : e.mode.parse stroke = (mode, none)) :
    (e.press stroke).mode = mode ∧ (e.press stroke).desk = e.desk := by
  have hpressed := pressed h
  generalize (e.press stroke).mode = afterMode, (e.press stroke).desk = afterDesk at hpressed ⊢
  cases hpressed
  exact ⟨rfl, rfl⟩

/-- A key that leads to an action after which the line goes on. -/
theorem press_of_goesOn {action after : Action} {reaction : Reaction}
    (h : e.mode.parse stroke = (mode, some action))
    (happly : action.apply ⟨e.config, mode.isCommandMode⟩ e.desk = (after, reaction))
    (hevent : reaction.outcome.event? = none) :
    (e.press stroke).mode = mode.takeBack after ∧ (e.press stroke).desk = reaction.desk := by
  have hpressed := pressed h
  generalize (e.press stroke).mode = afterMode, (e.press stroke).desk = afterDesk at hpressed ⊢
  cases hpressed with
  | goesOn applied =>
    cases happly.symm.trans applied
    exact ⟨rfl, rfl⟩
  | ends applied finished =>
    cases happly.symm.trans applied
    cases hevent.symm.trans finished

/-- A key that leads to an action that ends the line. -/
theorem press_of_ends {action after : Action} {reaction : Reaction} {event : Event}
    (h : e.mode.parse stroke = (mode, some action))
    (happly : action.apply ⟨e.config, mode.isCommandMode⟩ e.desk = (after, reaction))
    (hevent : reaction.outcome.event? = some event) :
    (e.press stroke).mode = (mode.takeBack after).reset ∧
      (e.press stroke).desk = reaction.desk.nextLine event := by
  have hpressed := pressed h
  generalize (e.press stroke).mode = afterMode, (e.press stroke).desk = afterDesk at hpressed ⊢
  cases hpressed with
  | goesOn applied unfinished =>
    cases happly.symm.trans applied
    cases hevent.symm.trans unfinished
  | ends applied finished =>
    cases happly.symm.trans applied
    cases hevent.symm.trans finished
    exact ⟨rfl, rfl⟩

/-! ## What is written comes down to keystrokes -/

theorem press_withSource (e : Editor) (decoder : Decoder) (input : KeyInput) (stroke : Stroke) :
    ∃ after, (e.withSource decoder input).press stroke =
      (e.press stroke).withSource decoder after := by
  refine ⟨input.setTrie (e.perform stroke).1.mode.keys, ?_⟩
  rw [press, handle_withSource, press, handle_eq]
  rfl

theorem foldl_press_withSource (strokes : List Stroke) (e : Editor) (decoder : Decoder)
    (input : KeyInput) :
    ∃ after, strokes.foldl press (e.withSource decoder input) =
      (strokes.foldl press e).withSource decoder after := by
  induction strokes generalizing e input with
  | nil => exact ⟨input, rfl⟩
  | cons stroke rest ih =>
    obtain ⟨middle, hmiddle⟩ := e.press_withSource decoder input stroke
    rw [List.foldl_cons, hmiddle]
    exact ih (e.press stroke) middle

theorem Runs.exists_strokes {e after : Editor} {result : Except EditorError (List Outcome)}
    (h : Runs e after result) :
    ∃ (strokes : List Stroke) (decoder : Decoder) (input : KeyInput),
      after = (strokes.foldl press e).withSource decoder input := by
  induction h with
  | @idle e _ => exact ⟨[], e.decoder, e.input, rfl⟩
  | @failed e after stroke input error ready fails =>
    obtain ⟨rest, hrest⟩ := e.press_withSource e.decoder input stroke
    have hafter : after = (e.withSource e.decoder input).press stroke :=
      (congrArg Prod.fst fails).symm
    exact ⟨[stroke], e.decoder, rest, hafter.trans hrest⟩
  | @next e middle after stroke input outcome? result ready handled _ ih =>
    obtain ⟨strokes, decoder, last, hlast⟩ := ih
    obtain ⟨rest, hrest⟩ := e.press_withSource e.decoder input stroke
    have hmiddle : middle = (e.withSource e.decoder input).press stroke :=
      (congrArg Prod.fst handled).symm
    obtain ⟨final, hfinal⟩ := foldl_press_withSource strokes (e.press stroke) e.decoder rest
    refine ⟨stroke :: strokes, decoder, last, ?_⟩
    rw [hlast, hmiddle, hrest, hfinal]
    rfl

/-- **What is written is typed.**  Up to where its input comes from, an editor after a write is the
editor after some keystrokes. -/
theorem exists_strokes_write (e : Editor) (bytes : List UInt8) :
    ∃ (strokes : List Stroke) (decoder : Decoder) (input : KeyInput),
      (e.write bytes).1 = (strokes.foldl press e).withSource decoder input := by
  rw [write]
  dsimp only
  split
  · exact ⟨[], (e.decoder.decode bytes).decoder, e.input, rfl⟩
  · obtain ⟨strokes, decoder, input, hrun⟩ :=
      (runs_run (e.receive (e.decoder.decode bytes).decoder
        (e.decoder.decode bytes).text)).exists_strokes
    obtain ⟨last, hlast⟩ := foldl_press_withSource strokes e (e.decoder.decode bytes).decoder
      (e.input.feed (e.decoder.decode bytes).text)
    refine ⟨strokes, decoder, input, hrun.trans ?_⟩
    rw [receive, hlast]
    rfl

end Editor

end PromptLine
