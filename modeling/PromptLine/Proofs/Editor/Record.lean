import PromptLine.Proofs.Action.Discretion
import PromptLine.Proofs.Editor.Calls
import PromptLine.Proofs.Editor.LineEnds
import PromptLine.Proofs.History.Recorded

/-!
# What the listener hears, and what the history keeps

Three accounts are given of the lines that ended.  The caller gets the outcomes of each write, the
listener is told of each line when it ends, and the history is given the lines that are committed.
They are made in different places: the outcome is what an action answers, the event is made of the
outcome, and the history is given the line itself.  As long as the screen does not fail they agree,
on a machine that checks its sums up to the first fault (`checked_serveAll_iff`).

`Follows` is the invariant: the history keeps what is kept of the committed lines that the listener
heard of.  A keystroke with an outcome that ends the line adds one event to both, and any other
keystroke adds none.
-/

namespace PromptLine

/-- The line of an event, if the line was committed. -/
def Event.line? : Event → Option Text
  | line text => some text
  | _ => none

namespace Desk

/-! ## The lines that were committed -/

/-- A desk with a line that can be seen, and with a history that was given some lines. -/
structure Remembers (d : Desk) (limit : Nat) (lines : List Text) : Prop where
  unmasked : d.buffer.masked = false
  entries : d.history.entries = History.recorded limit lines
  limit : d.history.limit = limit

variable {d after : Desk} {limit : Nat} {lines : List Text}

theorem Remembers.of_spares (h : d.Remembers limit lines) (hspares : d.Spares after) :
    after.Remembers limit lines :=
  ⟨hspares.masked.trans h.unmasked, hspares.entries.trans h.entries, hspares.limit.trans h.limit⟩

/-- A line that ends is remembered if it was committed. -/
theorem Remembers.nextLine (h : d.Remembers limit lines) {event : Event}
    (hline : ∀ line, event = .line line → line = d.buffer.text) :
    (d.nextLine event).Remembers limit (lines ++ event.line?.toList) := by
  cases event with
  | line line =>
    have hhistory : (d.nextLine (.line line)).history =
        (d.history.push line).restartSearch := by
      rw [Desk.nextLine, hline line rfl, h.unmasked]
      rfl
    have hentries : d.history.entries = History.recorded d.history.limit lines := by
      rw [h.limit, h.entries]
    refine ⟨h.unmasked, ?_, ?_⟩
    · rw [hhistory, History.entries_restartSearch, History.entries_push_eq_recorded hentries,
        h.limit]
      rfl
    · rw [hhistory]
      exact h.limit
  | eof =>
    refine ⟨h.unmasked, h.entries.trans ?_, h.limit⟩
    exact congrArg _ (List.append_nil lines).symm
  | interrupted =>
    refine ⟨h.unmasked, h.entries.trans ?_, h.limit⟩
    exact congrArg _ (List.append_nil lines).symm

end Desk

namespace Editor

/-! ## What the listener hears -/

variable {e : Editor}

/-- The listener is told of a line that ends, once the screen has moved on. -/
theorem heard_finishLine (h : e.sink.Reliable) (event : Event) :
    (e.finishLine event).1.heard = e.heard.map (· ++ [event]) := by
  have hdrawn := present_of_reliable (show e.freshLine.sink.Reliable from h) [.newLine]
  have hheard : (e.freshLine.present [.newLine]).1.heard = e.heard := rfl
  rw [finishLine]
  generalize e.freshLine.present [.newLine] = drawn at hdrawn hheard ⊢
  rcases drawn with ⟨after, _ | error⟩
  · exact congrArg (Option.map (· ++ [event])) hheard
  · cases hdrawn

theorem heard_conclude (h : e.sink.Reliable) (outcome : Outcome) (banner : Option Banner) :
    (e.conclude outcome banner).1.heard = e.heard.map (· ++ outcome.event?.toList) := by
  have hgoesOn : e.heard = e.heard.map (· ++ (none : Option Event).toList) := by
    cases e.heard with
    | none => rfl
    | some events => exact congrArg some (List.append_nil events).symm
  cases outcome with
  | commit line => exact heard_finishLine (show e.recordLine.sink.Reliable from h) (.line line)
  | eof => exact heard_finishLine h .eof
  | interrupted => exact heard_finishLine h .interrupted
  | _ => exact hgoesOn

/-! ## One keystroke -/

/-- The listener was told of the events, and the history was given the lines among them. -/
structure Follows (e : Editor) (limit : Nat) (events : List Event) : Prop where
  reliable : e.sink.Reliable
  heard : e.heard = some events
  remembers : e.desk.Remembers limit (events.filterMap Event.line?)

variable {limit : Nat} {events : List Event}

theorem Follows.of_faces {after : Editor} (h : e.Follows limit events) (hfaces : e.Faces after) :
    after.Follows limit events :=
  ⟨hfaces.sink ▸ h.reliable, hfaces.heard.trans h.heard, hfaces.desk ▸ h.remembers⟩

/-- An outcome that ends the line adds its event to all three accounts. -/
theorem Follows.conclude (h : e.Follows limit events) {outcome : Outcome}
    (hline : ∀ line, outcome.event? = some (.line line) → line = e.desk.buffer.text)
    (banner : Option Banner) :
    (e.conclude outcome banner).1.Follows limit (events ++ outcome.event?.toList) := by
  refine ⟨(e.keeps_conclude outcome banner).reliable h.reliable, ?_, ?_⟩
  · rw [heard_conclude h.reliable, h.heard]
    rfl
  · rw [List.filterMap_append]
    cases hevent : outcome.event? with
    | none =>
      rw [(e.conclude_of_open hevent banner).2, Option.toList_none, List.filterMap_nil,
        List.append_nil]
      exact h.remembers
    | some event =>
      rw [(e.conclude_of_closed hevent banner).2, Option.toList_some]
      have hcommitted : ∀ line, event = .line line → line = e.desk.buffer.text :=
        fun line heq => hline line (heq ▸ hevent)
      have hnext := h.remembers.nextLine hcommitted
      cases event <;> exact hnext

/-- **One keystroke.**  Its outcome is an outcome of the write, and the event of the outcome, if it
has one, goes to the listener. -/
theorem Follows.handle (h : e.Follows limit events) (stroke : Stroke) :
    ∃ outcome?, (e.handle stroke).2 = .ok outcome? ∧
      (e.handle stroke).1.Follows limit (events ++ (outcome?.bind Outcome.event?).toList) := by
  suffices hperform : ∃ outcome?, (e.perform stroke).2 = .ok outcome? ∧
      (e.perform stroke).1.Follows limit (events ++ (outcome?.bind Outcome.event?).toList) by
    obtain ⟨outcome?, hanswer, hafter⟩ := hperform
    exact ⟨outcome?, hanswer, hafter.of_faces (faces_withSource _ _ _)⟩
  rcases hparse : e.mode.parse stroke with ⟨mode, _ | action⟩
  · rw [perform, hparse]
    refine ⟨none, rfl, ?_⟩
    rw [Option.bind_none, Option.toList_none, List.append_nil]
    exact h.of_faces ⟨rfl, rfl, rfl, rfl⟩
  · let parsed : Editor := { e with mode := mode }
    have hspares := e.desk.spares_after parsed.setting action
    have happlied : (parsed.applyAction action).1.Follows limit events :=
      ⟨h.reliable, h.heard, h.remembers.of_spares hspares⟩
    rw [perform_of_action h.reliable hparse]
    exact ⟨_, rfl, happlied.conclude (fun line hline => Desk.line_eq_of_ends hline) _⟩

/-! ## Runs and calls -/

theorem Follows.run {after : Editor} {result : Except EditorError (List Outcome)}
    (hrun : Runs e after result) {outcomes : List Outcome} (hok : result = .ok outcomes)
    (h : e.Follows limit events) :
    after.Follows limit (events ++ outcomes.filterMap Outcome.event?) := by
  induction hrun generalizing events outcomes with
  | idle =>
    cases hok
    rw [List.filterMap_nil, List.append_nil]
    exact h
  | failed => cases hok
  | @next e middle after stroke input outcome? result ready handled rest ih =>
    cases result with
    | error error => cases hok
    | ok rest =>
      cases hok
      have htaken : ({ e with input := input } : Editor).Follows limit events :=
        h.of_faces (e.faces_withSource e.decoder input)
      obtain ⟨answer?, hanswer, hmiddle⟩ := htaken.handle stroke
      rw [handled] at hanswer hmiddle
      cases hanswer
      have hlater := ih rfl hmiddle
      rw [List.append_assoc] at hlater
      rw [List.filterMap_append]
      cases outcome? with
      | none => exact hlater
      | some outcome =>
        rw [Option.toList_some, List.filterMap_cons]
        cases hevent : outcome.event? <;> simpa [hevent] using hlater

/-- A write that fails is one that cannot be decoded, and nothing is done of it. -/
theorem Follows.write (h : e.Follows limit events) (bytes : List UInt8) :
    (e.write bytes).1.Follows limit
      (events ++ ((e.write bytes).2.toOption.getD []).filterMap Outcome.event?) := by
  rcases e.write_cases bytes with ⟨decoder, error, hwrite⟩ | ⟨decoder, text, hwrite⟩
  · rw [hwrite]
    change Follows _ limit (events ++ [])
    rw [List.append_nil]
    exact h.of_faces (e.faces_withSource decoder e.input)
  · rw [hwrite]
    have hreceived := h.of_faces (e.faces_withSource decoder (e.input.feed text))
    have hrun := runs_run (e.receive decoder text)
    obtain ⟨outcomes, hok⟩ := hrun.ok_of_reliable hreceived.reliable
    rw [hok]
    exact hreceived.run hrun hok

theorem Follows.serve (h : e.Follows limit events) (call : Call) :
    (e.serve call).1.Follows limit
      (events ++ (e.serve call).2.filterMap Outcome.event?) := by
  rcases e.serve_cases call with ⟨bytes, rfl⟩ | ⟨hfaces, hnone⟩
  · exact h.write bytes
  · rw [hnone, List.filterMap_nil, List.append_nil]
    exact h.of_faces hfaces

theorem Follows.serveAll (h : e.Follows limit events) (calls : List Call) :
    (e.serveAll calls).1.Follows limit
      (events ++ (e.serveAll calls).2.filterMap Outcome.event?) := by
  induction calls generalizing e events with
  | nil =>
    rw [Editor.serveAll, List.filterMap_nil, List.append_nil]
    exact h
  | cons call rest ih =>
    rw [Editor.serveAll, List.filterMap_append, ← List.append_assoc]
    exact ih (h.serve call)

/-- **Outcomes, events and history agree.**  Whatever is written to an editor with a screen that does
not fail, and however its keys are changed in between, the listener hears of just the outcomes that
end a line, in their order.  The history keeps of the committed lines the last ones, up to its
limit, once the blank ones are dropped and runs of equal neighbours are collapsed.  A machine that
checks its sums makes the calls up to the first fault of a drawing. -/
theorem heard_serveAll (hreliable : e.sink.Reliable) (hheard : e.heard = some [])
    (hunmasked : e.desk.buffer.masked = false) (hhistory : e.desk.history = .empty limit)
    (calls : List Call) :
    let after := (e.serveAll calls).1
    let events := (e.serveAll calls).2.filterMap Outcome.event?
    after.heard = some events ∧
      after.desk.history.entries = History.recorded limit (events.filterMap Event.line?) := by
  have hstart : e.Follows limit [] := by
    refine ⟨hreliable, hheard, hunmasked, ?_, ?_⟩
    · rw [hhistory, List.filterMap_nil, History.recorded_nil]
      rfl
    · rw [hhistory]
      rfl
  have hafter := hstart.serveAll calls
  exact ⟨hafter.heard, hafter.remembers.entries⟩

/-- Lines in both modes, one of them found by a search, and a write that cannot be decoded in
between: seven lines end, five of them with a commit, and a history of two entries keeps the
last two different ones. -/
theorem heard_serveAll_both_modes :
    let e : Editor := { (new .default (.reliable .utf8)).withListener with
      desk := ⟨.empty false, .empty 10, .empty 2⟩ }
    let calls : List Call := [.write [0x6C, 0x73, 0x0D, 0x20, 0x0D, 0x6C], .write [0xFF],
      .setCharset .utf8, .setEditingMode .vi, .write [0x73, 0x0D, 0x63, 0x64, 0x0D, 0x03],
      .setEditingMode .emacs, .write [0x12, 0x6C, 0x0D, 0x04]]
    let events : List Event := [.line ['l', 's'], .line [' '], .line ['l', 's'], .line ['c', 'd'],
      .interrupted, .line ['l', 's'], .eof]
    let after := (e.serveAll calls).1
    e.sink.Reliable ∧ e.heard = some [] ∧ e.desk.buffer.masked = false ∧
      e.desk.history = .empty 2 ∧ after.heard = some events ∧
        after.desk.history.entries = History.recorded 2 (events.filterMap Event.line?) ∧
          after.desk.history.entries = [['c', 'd'], ['l', 's']] := by
  intro e calls events after
  have hreliable : e.sink.Reliable := fun _ => rfl
  obtain ⟨hheard, hentries⟩ := heard_serveAll (e := e) hreliable rfl rfl rfl calls
  have hevents : (e.serveAll calls).2.filterMap Outcome.event? = events := by decide +kernel
  rw [hevents] at hheard hentries
  exact ⟨hreliable, rfl, rfl, rfl, hheard, hentries, hentries.trans (by decide +kernel)⟩

end Editor

end PromptLine
