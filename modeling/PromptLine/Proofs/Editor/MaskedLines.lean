import PromptLine.Proofs.Action.Discretion
import PromptLine.Proofs.Editor.Calls

/-!
# Lines that are not to be seen

A masked line is meant for a password.  It is to leave no trace: not in the history, not in the kill
ring, and on the screen nothing but its length and the place of its cursor.

The first two are about the desk.  No action copies from a masked line, and when such a line ends it
is not recorded.  The third is about the requests that are shown.  `shown` lists them for a sequence
of calls, group by group, and `sink_serveAll` says that all that is written comes from them.  Every
line among them is masked, and `veil` puts stars in the place of a masked line: what is drawn stays
the same.
-/

namespace PromptLine

/-! ## Drawing masked lines -/

/-- The request with as many stars as the line has characters, if the line is masked. -/
def Request.veil : Request → Request
  | line text cursor true => line (List.replicate text.length '*') cursor true
  | request => request

theorem Request.render_veil (prompt : Text) (request : Request) :
    request.veil.render prompt = request.render prompt := by
  match request with
  | line text cursor true =>
    rw [veil, render, render, if_pos rfl, if_pos rfl, List.map_const', List.map_const',
      List.length_replicate]
  | line text cursor false => rfl
  | banner b => rfl
  | bell style => rfl
  | clearScreen => rfl
  | newLine => rfl

namespace Sink

theorem draw_veil (prompt : Text) (sink : Sink) (request : Request) :
    sink.draw prompt request.veil = sink.draw prompt request := by
  rw [draw, draw, Request.render_veil]

theorem drawAll_map_veil (prompt : Text) (sink : Sink) (requests : List Request) :
    sink.drawAll prompt (requests.map Request.veil) = sink.drawAll prompt requests := by
  induction requests generalizing sink with
  | nil => rfl
  | cons request rest ih =>
    rw [List.map_cons, drawAll, drawAll, draw_veil]
    split
    · exact ih _
    · rfl

/-- Shows group after group.  A failure ends its group only. -/
def drawEach (prompt : Text) (sink : Sink) (groups : List (List Request)) : Sink :=
  groups.foldl (fun sink requests => (sink.drawAll prompt requests).1) sink

theorem drawEach_append (prompt : Text) (sink : Sink) (first second : List (List Request)) :
    sink.drawEach prompt (first ++ second) =
      (sink.drawEach prompt first).drawEach prompt second :=
  List.foldl_append

theorem drawEach_map_veil (prompt : Text) (sink : Sink) (groups : List (List Request)) :
    sink.drawEach prompt (groups.map (·.map Request.veil)) = sink.drawEach prompt groups := by
  rw [drawEach, List.foldl_map]
  simp only [drawAll_map_veil]
  rfl

/-- **Two masked lines of one length look alike.** -/
theorem draw_masked_eq (prompt : Text) (sink : Sink) {text other : Text}
    (hlength : other.length = text.length) (cursor : Nat) :
    sink.draw prompt (.line text cursor true) = sink.draw prompt (.line other cursor true) := by
  rw [← draw_veil, Request.veil, ← hlength]
  exact draw_veil prompt sink (.line other cursor true)

end Sink

/-- A masked line that ends is not recorded. -/
theorem Desk.spares_nextLine {d : Desk} (h : d.buffer.masked = true) (event : Event) :
    d.Spares (d.nextLine event) := by
  cases event with
  | line line =>
    rw [nextLine, h]
    exact ⟨rfl, rfl, rfl, fun _ => rfl⟩
  | eof => exact ⟨rfl, rfl, rfl, fun _ => rfl⟩
  | interrupted => exact ⟨rfl, rfl, rfl, fun _ => rfl⟩

namespace Editor

/-! ## What is shown -/

/-- What is shown for an outcome. -/
def requests (e : Editor) (outcome : Outcome) (banner : Option Banner) : List Request :=
  match outcome with
  | .commit _ | .eof | .interrupted => [.newLine]
  | .bell style => [.bell style, e.drawing banner]
  | .clearScreen => [.clearScreen, e.drawing banner]
  | .proceed | .complete => [e.drawing banner]

/-- What is shown for a keystroke. -/
def shows (e : Editor) (stroke : Stroke) : List Request :=
  let (mode, action?) := e.mode.parse stroke
  match action? with
  | none => []
  | some action =>
    let (applied, outcome, banner) := ({ e with mode := mode } : Editor).applyAction action
    applied.requests outcome banner

variable (e : Editor)

theorem sink_finishLine (event : Event) :
    (e.finishLine event).1.sink = (e.sink.drawAll e.prompt [.newLine]).1 := by
  have hsink : (e.freshLine.present [.newLine]).1.sink =
      (e.sink.drawAll e.prompt [.newLine]).1 := rfl
  rw [finishLine]
  generalize e.freshLine.present [.newLine] = drawn at hsink ⊢
  rcases drawn with ⟨after, _ | error⟩ <;> exact hsink

theorem sink_conclude (outcome : Outcome) (banner : Option Banner) :
    (e.conclude outcome banner).1.sink =
      (e.sink.drawAll e.prompt (e.requests outcome banner)).1 := by
  cases outcome with
  | commit line => exact e.recordLine.sink_finishLine (.line line)
  | eof => exact e.sink_finishLine .eof
  | interrupted => exact e.sink_finishLine .interrupted
  | _ => rfl

/-- **A keystroke writes what it shows**, as far as the sink goes along. -/
theorem sink_press (stroke : Stroke) :
    (e.press stroke).sink = (e.sink.drawAll e.prompt (e.shows stroke)).1 := by
  change (e.perform stroke).1.sink = _
  rw [perform, shows]
  rcases e.mode.parse stroke with ⟨mode, _ | action⟩
  · rfl
  · dsimp only
    rw [carryOut_fst, sink_conclude]
    rfl

/-- What a run shows, keystroke by keystroke. -/
def shownWithin : Nat → Editor → List (List Request)
  | 0, _ => []
  | fuel + 1, e =>
    match e.input.next? with
    | none => []
    | some (stroke, input) =>
      e.shows stroke ::
        match handle { e with input := input } stroke with
        | (_, .error _) => []
        | (e, .ok _) => shownWithin fuel e

/-- What a call shows. -/
def shownBy (e : Editor) : Call → List (List Request)
  | .write bytes =>
    let decoded := e.decoder.decode bytes
    if decoded.error = none then
      let e := e.receive decoded.decoder decoded.text
      shownWithin e.input.pending.length e
    else []
  | _ => []

/-- What is shown for one call after another. -/
def shown (e : Editor) : List Call → List (List Request)
  | [] => []
  | call :: rest => e.shownBy call ++ shown (e.serve call).1 rest

variable {e}

theorem prompt_handle (stroke : Stroke) : (e.handle stroke).1.prompt = e.prompt :=
  (e.keeps_handle stroke).prompt

theorem sink_runWithin (fuel : Nat) (e : Editor) :
    (runWithin fuel e).1.sink = e.sink.drawEach e.prompt (shownWithin fuel e) := by
  induction fuel generalizing e with
  | zero => rfl
  | succ fuel ih =>
    rw [runWithin, shownWithin]
    cases hnext : e.input.next? with
    | none => rfl
    | some taken =>
      obtain ⟨stroke, input⟩ := taken
      have hsink : (handle { e with input := input } stroke).1.sink =
          (e.sink.drawAll e.prompt (e.shows stroke)).1 :=
        sink_press { e with input := input } stroke
      have hprompt := prompt_handle (e := { e with input := input }) stroke
      dsimp only
      rcases hhandle : handle { e with input := input } stroke with ⟨middle, error | outcome?⟩
      · rw [hhandle] at hsink
        exact hsink
      · rw [hhandle] at hsink hprompt
        have hrest := ih middle
        rw [hsink, hprompt] at hrest
        exact hrest

theorem prompt_serve (call : Call) : (e.serve call).1.prompt = e.prompt := by
  rcases e.serve_cases call with ⟨bytes, rfl⟩ | ⟨hfaces, -⟩
  · change (e.write bytes).1.prompt = e.prompt
    rcases e.write_cases bytes with ⟨decoder, error, hwrite⟩ | ⟨decoder, text, hwrite⟩
    · rw [hwrite]
      rfl
    · rw [hwrite]
      exact (runs_run (e.receive decoder text)).keeps.prompt
  · exact hfaces.prompt

theorem sink_serve (call : Call) :
    (e.serve call).1.sink = e.sink.drawEach e.prompt (e.shownBy call) := by
  cases call with
  | write bytes =>
    change (e.write bytes).1.sink = _
    rw [shownBy]
    cases hdecode : (e.decoder.decode bytes).error with
    | some error =>
      rw [write_of_error hdecode, if_neg (Option.some_ne_none error)]
      rfl
    | none =>
      rw [write_of_decoded hdecode, if_pos rfl]
      exact sink_runWithin _ _
  | bind sequence command => exact (e.faces_addCommand sequence command).sink
  | _ => rfl

/-- **All that is written comes from what is shown**, whatever is asked of an editor. -/
theorem sink_serveAll (calls : List Call) :
    (e.serveAll calls).1.sink = e.sink.drawEach e.prompt (e.shown calls) := by
  induction calls generalizing e with
  | nil => rfl
  | cons call rest ih =>
    rw [serveAll, shown, Sink.drawEach_append, ← sink_serve, ← prompt_serve call]
    exact ih

/-! ## Keys that are typed into a masked line -/

/-- **A key typed into a masked line** changes neither the entries of the history nor the kill
ring. -/
theorem spares_press (h : e.desk.buffer.masked = true) (stroke : Stroke) :
    e.desk.Spares (e.press stroke).desk := by
  rcases hparse : e.mode.parse stroke with ⟨mode, action?⟩
  have hpressed := pressed hparse
  generalize (e.press stroke).mode = after, (e.press stroke).desk = desk at hpressed ⊢
  cases hpressed with
  | idle => exact .refl _
  | @goesOn action after reaction applied =>
    have hspares := e.desk.spares_after ⟨e.config, mode.isCommandMode⟩ action
    rwa [Desk.after, applied] at hspares
  | @ends action after reaction event applied =>
    have hspares := e.desk.spares_after ⟨e.config, mode.isCommandMode⟩ action
    rw [Desk.after, applied] at hspares
    exact hspares.trans (Desk.spares_nextLine (hspares.masked.trans h) event)

theorem line_notMem_requests (h : e.desk.buffer.masked = true) (text : Text) (cursor : Nat)
    (outcome : Outcome) (banner : Option Banner) :
    Request.line text cursor false ∉ e.requests outcome banner := by
  have hdrawing : Request.line text cursor false ≠ e.drawing banner := by
    cases banner with
    | none =>
      rw [drawing, h]
      nofun
    | some banner => nofun
  cases outcome <;> simp [requests, hdrawing]

/-- The line is not shown as it is. -/
theorem line_notMem_shows (h : e.desk.buffer.masked = true) (stroke : Stroke) (text : Text)
    (cursor : Nat) : Request.line text cursor false ∉ e.shows stroke := by
  rw [shows]
  rcases e.mode.parse stroke with ⟨mode, _ | action⟩
  · exact List.not_mem_nil
  · let parsed : Editor := { e with mode := mode }
    have hmasked : (parsed.applyAction action).1.desk.buffer.masked = true :=
      (e.desk.spares_after parsed.setting action).masked.trans h
    exact line_notMem_requests hmasked text cursor _ _

/-! ## Whole runs -/

/-- What every keystroke leaves alone is left alone by a run. -/
theorem Runs.spares {after : Editor} {result : Except EditorError (List Outcome)}
    (hrun : Runs e after result) (h : e.desk.buffer.masked = true) :
    e.desk.Spares after.desk := by
  refine hrun.preserves (P := fun reached => e.desk.Spares reached.desk) ?_ (.refl e.desk)
  intro middle stroke input hmiddle _
  exact hmiddle.trans (spares_press (e := { middle with input := input })
    (hmiddle.masked.trans h) stroke)

theorem line_notMem_shownWithin (h : e.desk.buffer.masked = true) (fuel : Nat) (text : Text)
    (cursor : Nat) : ∀ group ∈ shownWithin fuel e, Request.line text cursor false ∉ group := by
  induction fuel generalizing e with
  | zero => exact List.forall_mem_nil _
  | succ fuel ih =>
    rw [shownWithin]
    cases hnext : e.input.next? with
    | none => exact List.forall_mem_nil _
    | some taken =>
      obtain ⟨stroke, input⟩ := taken
      have hspares := spares_press (e := { e with input := input }) h stroke
      refine List.forall_mem_cons.mpr ⟨line_notMem_shows h stroke text cursor, ?_⟩
      rcases hhandle : handle { e with input := input } stroke with ⟨middle, error | outcome?⟩
      · exact List.forall_mem_nil _
      · rw [press, hhandle] at hspares
        exact ih (hspares.masked.trans h)

theorem spares_serve (h : e.desk.buffer.masked = true) (call : Call) :
    e.desk.Spares (e.serve call).1.desk := by
  rcases e.serve_cases call with ⟨bytes, rfl⟩ | ⟨hfaces, -⟩
  · change e.desk.Spares (e.write bytes).1.desk
    rcases e.write_cases bytes with ⟨decoder, error, hwrite⟩ | ⟨decoder, text, hwrite⟩
    · rw [hwrite]
      exact .refl e.desk
    · rw [hwrite]
      exact (runs_run (e.receive decoder text)).spares h
  · rw [hfaces.desk]
    exact .refl e.desk

theorem line_notMem_shownBy (h : e.desk.buffer.masked = true) (call : Call) (text : Text)
    (cursor : Nat) : ∀ group ∈ e.shownBy call, Request.line text cursor false ∉ group := by
  cases call with
  | write bytes =>
    rw [shownBy]
    dsimp only
    split
    · exact line_notMem_shownWithin (e := e.receive _ _) h _ text cursor
    · exact List.forall_mem_nil _
  | _ => exact List.forall_mem_nil _

theorem spares_serveAll (h : e.desk.buffer.masked = true) (calls : List Call) :
    e.desk.Spares (e.serveAll calls).1.desk := by
  induction calls generalizing e with
  | nil => exact .refl e.desk
  | cons call rest ih =>
    have hcall := spares_serve h call
    exact hcall.trans (ih (hcall.masked.trans h))

theorem line_notMem_shown (h : e.desk.buffer.masked = true) (calls : List Call) (text : Text)
    (cursor : Nat) : ∀ group ∈ e.shown calls, Request.line text cursor false ∉ group := by
  induction calls generalizing e with
  | nil => exact List.forall_mem_nil _
  | cons call rest ih =>
    have hcall := spares_serve h call
    exact List.forall_mem_append.mpr
      ⟨line_notMem_shownBy h call text cursor, ih (hcall.masked.trans h)⟩

/-- **A masked line does not leak.**  Whatever is asked of an editor with a masked line, the entries
of the history and the kill ring stay as they are.  All that is written comes from what is shown,
and no line that is shown is shown as it is: with stars in the place of each line the same is
written, so two lines of one length look alike. -/
theorem masked_line_leaves_no_trace (hmasked : e.desk.buffer.masked = true) (calls : List Call) :
    let after := (e.serveAll calls).1
    after.desk.history.entries = e.desk.history.entries ∧ after.desk.kills = e.desk.kills ∧
      after.sink = e.sink.drawEach e.prompt (e.shown calls) ∧
      after.sink = e.sink.drawEach e.prompt ((e.shown calls).map (·.map Request.veil)) ∧
      (∀ group ∈ e.shown calls, ∀ text cursor, Request.line text cursor false ∉ group) ∧
        ∀ (sink : Sink) (text other : Text) (cursor : Nat), other.length = text.length →
          sink.draw e.prompt (.line text cursor true) =
            sink.draw e.prompt (.line other cursor true) := by
  intro after
  have hspares := spares_serveAll hmasked calls
  have hsink := sink_serveAll (e := e) calls
  refine ⟨hspares.entries, hspares.kills hmasked, hsink, ?_,
    fun group hgroup text cursor => line_notMem_shown hmasked calls text cursor group hgroup,
    fun sink _ _ cursor hlength => sink.draw_masked_eq e.prompt hlength cursor⟩
  rw [Sink.drawEach_map_veil]
  exact hsink

/-- A password in both modes: deleted in command status, put back from the kill ring, killed again
and committed. -/
theorem masked_line_leaves_no_trace_both_modes :
    let e : Editor := { new { Config.default with editingMode := .vi } (.reliable .utf8) with
      desk := ⟨.empty true, (KillRing.empty 10).add ['o'], (History.empty 10).push ['a']⟩ }
    let calls : List Call := [.write [0x70, 0x77, 0x1B, 0x64, 0x64, 0x70], .setEditingMode .emacs,
      .write [0x01, 0x0B, 0x6B, 0x0D]]
    let after := (e.serveAll calls).1
    e.desk.buffer.masked = true ∧ after.desk.history.entries = [['a']] ∧
      after.desk.kills = (KillRing.empty 10).add ['o'] ∧
        [Request.line ['p', 'w'] 2 true] ∈ e.shown calls ∧
          after.sink = e.sink.drawEach e.prompt ((e.shown calls).map (·.map Request.veil)) := by
  intro e calls after
  have hshown : [Request.line ['p', 'w'] 2 true] ∈ e.shown calls := by decide +kernel
  obtain ⟨hentries, hkills, -, hveiled, -⟩ := masked_line_leaves_no_trace (e := e) rfl calls
  exact ⟨rfl, hentries, hkills, hshown, hveiled⟩

end Editor

end PromptLine
