import PromptLine.Editor
import PromptLine.Proofs.Mode.Bindings

/-!
# What a keystroke touches

Carrying a keystroke out is about the line, the mode, the screen and the listener.  Where input
comes from, the decoder and the code points that no keystroke has taken, is neither looked at nor
changed, so it can be exchanged before or after with the same effect.  `withSource` exchanges it,
and each part of carrying a keystroke out commutes with that.

The rest of what stays the same is collected in `Keeps`.
-/

namespace PromptLine

/-! ## Sinks that do not fail -/

namespace Sink

/-- No write will fail. -/
def Reliable (sink : Sink) : Prop := ∀ number, sink.fate number = .written

/-- Writing changes nothing about a sink but what it was given. -/
theorem write_keeps (sink : Sink) (text : Text) :
    (sink.write text).1.charset = sink.charset ∧ (sink.write text).1.fate = sink.fate := by
  rw [write]
  split
  · exact ⟨rfl, rfl⟩
  · dsimp only
    split <;> exact ⟨rfl, rfl⟩

theorem write_of_reliable {sink : Sink} (h : sink.Reliable) (text : Text) :
    (sink.write text).2 = none := by
  rw [write]
  split
  · rfl
  · rw [h sink.tried]

theorem draw_keeps (prompt : Text) (sink : Sink) (request : Request) :
    (sink.draw prompt request).1.charset = sink.charset ∧
      (sink.draw prompt request).1.fate = sink.fate :=
  write_keeps { sink with fault := sink.fault.or (request.render prompt).fault }
    (request.render prompt).value

theorem draw_of_reliable (prompt : Text) {sink : Sink} (h : sink.Reliable) (request : Request) :
    (sink.draw prompt request).2 = none := by
  have hmarked : Reliable { sink with fault := sink.fault.or (request.render prompt).fault } := h
  exact write_of_reliable hmarked (request.render prompt).value

theorem Reliable.draw {sink : Sink} (h : sink.Reliable) (prompt : Text) (request : Request) :
    (sink.draw prompt request).1.Reliable := by
  intro number
  rw [(draw_keeps prompt sink request).2, h number]

theorem drawAll_keeps (prompt : Text) (sink : Sink) (requests : List Request) :
    (sink.drawAll prompt requests).1.charset = sink.charset ∧
      (sink.drawAll prompt requests).1.fate = sink.fate := by
  induction requests generalizing sink with
  | nil => exact ⟨rfl, rfl⟩
  | cons request rest ih =>
    have hfirst := draw_keeps prompt sink request
    rw [drawAll]
    split
    · next after hdraw =>
      rw [hdraw] at hfirst
      have hrest := ih after
      exact ⟨hrest.1.trans hfirst.1, hrest.2.trans hfirst.2⟩
    · next hdraw =>
      rw [hdraw] at hfirst
      exact hfirst

theorem drawAll_of_reliable (prompt : Text) {sink : Sink} (h : sink.Reliable)
    (requests : List Request) : (sink.drawAll prompt requests).2 = none := by
  induction requests generalizing sink with
  | nil => rfl
  | cons request rest ih =>
    have hafter := h.draw prompt request
    have hfirst := draw_of_reliable prompt h request
    rw [drawAll]
    split
    · next after hdraw =>
      rw [hdraw] at hafter
      exact ih hafter
    · next hdraw =>
      rw [hdraw] at hfirst
      cases hfirst

end Sink

namespace Editor

/-! ## Where input comes from -/

/-- The editor with another decoder and other input. -/
def withSource (e : Editor) (decoder : Decoder) (input : KeyInput) : Editor :=
  { e with decoder := decoder, input := input }

variable (e : Editor) (decoder : Decoder) (input : KeyInput)

theorem present_withSource (requests : List Request) :
    (e.withSource decoder input).present requests =
      ((e.present requests).1.withSource decoder input, (e.present requests).2) := rfl

theorem finishLine_withSource (event : Event) :
    (e.withSource decoder input).finishLine event =
      ((e.finishLine event).1.withSource decoder input, (e.finishLine event).2) := by
  have hfresh : (e.withSource decoder input).freshLine = e.freshLine.withSource decoder input := rfl
  rw [finishLine, hfresh, present_withSource, finishLine]
  rcases e.freshLine.present [.newLine] with ⟨after, _ | error⟩ <;> rfl

theorem conclude_withSource (outcome : Outcome) (banner : Option Banner) :
    (e.withSource decoder input).conclude outcome banner =
      ((e.conclude outcome banner).1.withSource decoder input, (e.conclude outcome banner).2) := by
  cases outcome with
  | commit line => exact e.recordLine.finishLine_withSource decoder input (.line line)
  | eof => exact e.finishLine_withSource decoder input .eof
  | interrupted => exact e.finishLine_withSource decoder input .interrupted
  | bell style => exact e.present_withSource decoder input [.bell style, e.drawing banner]
  | clearScreen => exact e.present_withSource decoder input [.clearScreen, e.drawing banner]
  | proceed => exact e.present_withSource decoder input [e.drawing banner]
  | complete => exact e.present_withSource decoder input [e.drawing banner]

theorem carryOut_withSource (action : Action) :
    (e.withSource decoder input).carryOut action =
      ((e.carryOut action).1.withSource decoder input, (e.carryOut action).2) := by
  have happly : (e.withSource decoder input).applyAction action =
      ((e.applyAction action).1.withSource decoder input, (e.applyAction action).2) := rfl
  rw [carryOut, happly, carryOut]
  rcases e.applyAction action with ⟨applied, outcome, banner⟩
  dsimp only
  rw [conclude_withSource]
  rcases applied.conclude outcome banner with ⟨after, _ | error⟩ <;> rfl

/-- **Carrying out a keystroke** neither looks at where input comes from nor changes it. -/
theorem perform_withSource (stroke : Stroke) :
    (e.withSource decoder input).perform stroke =
      ((e.perform stroke).1.withSource decoder input, (e.perform stroke).2) := by
  have hmode : (e.withSource decoder input).mode = e.mode := rfl
  rw [perform, hmode, perform]
  rcases e.mode.parse stroke with ⟨mode, _ | action⟩
  · rfl
  · exact ({ e with mode := mode } : Editor).carryOut_withSource decoder input action

theorem handle_withSource (stroke : Stroke) :
    (e.withSource decoder input).handle stroke =
      ((e.perform stroke).1.withSource decoder
        (input.setTrie (e.perform stroke).1.mode.keys), (e.perform stroke).2) := by
  rw [handle, perform_withSource]
  rfl

/-- A keystroke that was dealt with leaves the rest of the input and the decoder alone. -/
theorem handle_eq (stroke : Stroke) :
    e.handle stroke =
      ((e.perform stroke).1.withSource e.decoder
        (e.input.setTrie (e.perform stroke).1.mode.keys), (e.perform stroke).2) :=
  e.handle_withSource e.decoder e.input stroke

/-! ## What stays the same -/

/-- Two states of one editor: it was set up once, with one set of bindings, and writes to one
sink. -/
structure Keeps (after : Editor) : Prop where
  config : after.config = e.config
  report : after.report = e.report
  decoder : after.decoder = e.decoder
  prompt : after.prompt = e.prompt
  bindings : after.mode.pristine = e.mode.pristine
  charset : after.sink.charset = e.sink.charset
  fate : after.sink.fate = e.sink.fate

variable {e : Editor}

theorem Keeps.refl (e : Editor) : e.Keeps e := ⟨rfl, rfl, rfl, rfl, rfl, rfl, rfl⟩

theorem Keeps.trans {middle after : Editor} (h : e.Keeps middle) (h' : middle.Keeps after) :
    e.Keeps after :=
  ⟨h'.config.trans h.config, h'.report.trans h.report, h'.decoder.trans h.decoder,
    h'.prompt.trans h.prompt, h'.bindings.trans h.bindings, h'.charset.trans h.charset,
    h'.fate.trans h.fate⟩

theorem Keeps.reliable {after : Editor} (h : e.Keeps after) (he : e.sink.Reliable) :
    after.sink.Reliable := by
  intro number
  rw [h.fate, he number]

theorem Keeps.frozen {after : Editor} (h : e.Keeps after) (he : e.mode.Frozen) :
    after.mode.Frozen := by
  rwa [← Mode.frozen_pristine, h.bindings, Mode.frozen_pristine]

theorem Keeps.strokes {after : Editor} (h : e.Keeps after) :
    after.mode.strokes = e.mode.strokes := by
  rw [← Mode.strokes_pristine, h.bindings, Mode.strokes_pristine]

theorem keeps_present (e : Editor) (requests : List Request) : e.Keeps (e.present requests).1 := by
  obtain ⟨hcharset, hfate⟩ := e.sink.drawAll_keeps e.prompt requests
  exact ⟨rfl, rfl, rfl, rfl, rfl, hcharset, hfate⟩

theorem keeps_finishLine (e : Editor) (event : Event) : e.Keeps (e.finishLine event).1 := by
  have hfresh : e.Keeps e.freshLine :=
    ⟨rfl, rfl, rfl, rfl, e.mode.pristine_reset, rfl, rfl⟩
  have hdrawn := hfresh.trans (e.freshLine.keeps_present [.newLine])
  rw [finishLine]
  generalize e.freshLine.present [.newLine] = drawn at hdrawn ⊢
  rcases drawn with ⟨after, _ | error⟩
  · exact hdrawn.trans ⟨rfl, rfl, rfl, rfl, rfl, rfl, rfl⟩
  · exact hdrawn

theorem keeps_conclude (e : Editor) (outcome : Outcome) (banner : Option Banner) :
    e.Keeps (e.conclude outcome banner).1 := by
  cases outcome with
  | commit line =>
    have hrecorded : e.Keeps e.recordLine := ⟨rfl, rfl, rfl, rfl, rfl, rfl, rfl⟩
    exact hrecorded.trans (e.recordLine.keeps_finishLine (.line line))
  | eof => exact e.keeps_finishLine .eof
  | interrupted => exact e.keeps_finishLine .interrupted
  | bell style => exact e.keeps_present [.bell style, e.drawing banner]
  | clearScreen => exact e.keeps_present [.clearScreen, e.drawing banner]
  | proceed => exact e.keeps_present [e.drawing banner]
  | complete => exact e.keeps_present [e.drawing banner]

theorem keeps_carryOut (e : Editor) (action : Action) : e.Keeps (e.carryOut action).1 := by
  have happly : e.Keeps (e.applyAction action).1 :=
    ⟨rfl, rfl, rfl, rfl, e.mode.pristine_takeBack _, rfl, rfl⟩
  rw [carryOut]
  generalize e.applyAction action = applied at happly ⊢
  rcases applied with ⟨applied, outcome, banner⟩
  have hconclude := happly.trans (applied.keeps_conclude outcome banner)
  dsimp only
  generalize applied.conclude outcome banner = concluded at hconclude ⊢
  rcases concluded with ⟨after, _ | error⟩ <;> exact hconclude

theorem keeps_perform (e : Editor) (stroke : Stroke) : e.Keeps (e.perform stroke).1 := by
  have hparse := e.mode.pristine_parse stroke
  rw [perform]
  generalize e.mode.parse stroke = parsed at hparse ⊢
  rcases parsed with ⟨mode, _ | action⟩
  · exact ⟨rfl, rfl, rfl, rfl, hparse, rfl, rfl⟩
  · have hmode : e.Keeps { e with mode := mode } := ⟨rfl, rfl, rfl, rfl, hparse, rfl, rfl⟩
    exact hmode.trans (keeps_carryOut { e with mode := mode } action)

/-- **What a keystroke leaves alone.** -/
theorem keeps_handle (e : Editor) (stroke : Stroke) : e.Keeps (e.handle stroke).1 :=
  (e.keeps_perform stroke).trans ⟨rfl, rfl, rfl, rfl, rfl, rfl, rfl⟩

/-! ## Keystrokes that cannot fail -/

theorem present_of_reliable (h : e.sink.Reliable) (requests : List Request) :
    (e.present requests).2 = none := by
  have hdrawn := Sink.drawAll_of_reliable e.prompt h requests
  change (e.sink.drawAll e.prompt requests).2.map EditorError.io = none
  rw [hdrawn]
  rfl

theorem finishLine_of_reliable (h : e.sink.Reliable) (event : Event) :
    (e.finishLine event).2 = none := by
  have hdrawn := present_of_reliable (show e.freshLine.sink.Reliable from h) [.newLine]
  rw [finishLine]
  generalize e.freshLine.present [.newLine] = drawn at hdrawn ⊢
  rcases drawn with ⟨after, _ | error⟩
  · rfl
  · cases hdrawn

theorem conclude_of_reliable (h : e.sink.Reliable) (outcome : Outcome) (banner : Option Banner) :
    (e.conclude outcome banner).2 = none := by
  cases outcome with
  | commit line => exact finishLine_of_reliable (show e.recordLine.sink.Reliable from h) _
  | eof => exact finishLine_of_reliable h .eof
  | interrupted => exact finishLine_of_reliable h .interrupted
  | bell style => exact present_of_reliable h [.bell style, e.drawing banner]
  | clearScreen => exact present_of_reliable h [.clearScreen, e.drawing banner]
  | proceed => exact present_of_reliable h [e.drawing banner]
  | complete => exact present_of_reliable h [e.drawing banner]

/-- An action that is carried out is answered with its outcome. -/
theorem carryOut_of_reliable (h : e.sink.Reliable) (action : Action) :
    e.carryOut action =
      (((e.applyAction action).1.conclude
        (e.applyAction action).2.1 (e.applyAction action).2.2).1,
        .ok (some (e.applyAction action).2.1)) := by
  have happly : (e.applyAction action).1.sink.Reliable := h
  rw [carryOut]
  generalize e.applyAction action = applied at happly ⊢
  rcases applied with ⟨applied, outcome, banner⟩
  have hconclude := conclude_of_reliable happly outcome banner
  dsimp only
  generalize applied.conclude outcome banner = concluded at hconclude ⊢
  rcases concluded with ⟨after, _ | error⟩
  · rfl
  · cases hconclude

/-- A key that leads to an action is answered with the outcome of the action. -/
theorem perform_of_action (h : e.sink.Reliable) {stroke : Stroke} {mode : Mode} {action : Action}
    (hparse : e.mode.parse stroke = (mode, some action)) :
    let applied := ({ e with mode := mode } : Editor).applyAction action
    e.perform stroke = ((applied.1.conclude applied.2.1 applied.2.2).1, .ok (some applied.2.1)) := by
  intro applied
  rw [perform, hparse]
  exact carryOut_of_reliable (show ({ e with mode := mode } : Editor).sink.Reliable from h) action

/-- **A keystroke fails only where the sink does.** -/
theorem handle_of_reliable (h : e.sink.Reliable) (stroke : Stroke) :
    ∃ outcome?, (e.handle stroke).2 = .ok outcome? := by
  change ∃ outcome?, (e.perform stroke).2 = .ok outcome?
  rcases hparse : e.mode.parse stroke with ⟨mode, _ | action⟩
  · rw [perform, hparse]
    exact ⟨none, rfl⟩
  · rw [perform_of_action h hparse]
    exact ⟨_, rfl⟩

end Editor

end PromptLine
