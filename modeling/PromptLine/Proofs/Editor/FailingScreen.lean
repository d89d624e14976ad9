import PromptLine.Proofs.Editor.Record
import PromptLine.Proofs.Editor.RefusedBytes

/-!
# Lines that end while the screen fails

When a line ends, four things happen in this order: the line enters the history, a fresh line
begins, the screen is put on the next line, and the listener is told.  The third can fail, and then
the fourth does not happen.  So a failing screen can swallow a line: it is in the history, it is
gone from the editor, and nobody has heard of it.

`ended` lists the lines that end while calls are served, whatever the screen does, and says of each
whether the screen could be put on the next line.  The listener hears of just those lines of which
it could.  A write ends with the first failure of the screen, so it swallows one line at most, the
last of those that it ends; and it answers with the reason.
-/

namespace PromptLine

namespace Editor

/-! ## Lines that end -/

/-- A line that has ended. -/
structure Ended where
  event : Event
  /-- Whether the screen could be put on the next line. -/
  shown : Bool
  deriving DecidableEq, Repr

/-- The events of the lines behind which the screen could be put on the next line. -/
def Ended.delivered (lines : List Ended) : List Event := (lines.filter shown).map event

/-- The texts of the lines that were committed. -/
def Ended.committed (lines : List Ended) : List Text := lines.filterMap (·.event.line?)

@[simp] theorem Ended.delivered_append (first second : List Ended) :
    delivered (first ++ second) = delivered first ++ delivered second := by
  simp [delivered]

@[simp] theorem Ended.committed_append (first second : List Ended) :
    committed (first ++ second) = committed first ++ committed second := by
  simp [committed]

/-- The line that a keystroke ends, if it leads to an action that ends the line. -/
def ended? (e : Editor) (stroke : Stroke) : Option Ended :=
  let (mode, action?) := e.mode.parse stroke
  action?.bind fun action =>
    let (_, outcome, _) := ({ e with mode := mode } : Editor).applyAction action
    outcome.event?.map fun event => ⟨event, (e.present [.newLine]).2.isNone⟩

/-- The lines that a run ends, keystroke by keystroke. -/
def endedWithin : Nat → Editor → List Ended
  | 0, _ => []
  | fuel + 1, e =>
    match e.input.next? with
    | none => []
    | some (stroke, input) =>
      (e.ended? stroke).toList ++
        match handle { e with input := input } stroke with
        | (_, .error _) => []
        | (e, .ok _) => endedWithin fuel e

/-- The lines that a call ends. -/
def endedBy (e : Editor) : Call → List Ended
  | .write bytes =>
    let decoded := e.decoder.decode bytes
    if decoded.error = none then
      let e := e.receive decoded.decoder decoded.text
      endedWithin e.input.pending.length e
    else []
  | _ => []

/-- The lines that end while one call is served after another. -/
def ended (e : Editor) : List Call → List Ended
  | [] => []
  | call :: rest => e.endedBy call ++ ended (e.serve call).1 rest

variable {e : Editor}

/-! ## The end of a line -/

/-- **The listener is told of a line exactly if the screen could be put on the next one.** -/
theorem finishLine_heard (e : Editor) (event : Event) :
    (e.finishLine event).2 = (e.present [.newLine]).2 ∧
      (e.finishLine event).1.heard =
        e.heard.map (· ++ Ended.delivered [⟨event, (e.present [.newLine]).2.isNone⟩]) := by
  have hfailure : (e.freshLine.present [.newLine]).2 = (e.present [.newLine]).2 := rfl
  have hheard : (e.freshLine.present [.newLine]).1.heard = e.heard := rfl
  rw [finishLine, ← hfailure]
  generalize e.freshLine.present [.newLine] = drawn at hheard ⊢
  rcases drawn with ⟨after, _ | error⟩
  · exact ⟨rfl, congrArg (Option.map (· ++ [event])) hheard⟩
  · refine ⟨rfl, hheard.trans ?_⟩
    show e.heard = e.heard.map (· ++ [])
    simp

theorem conclude_heard_of_closed (e : Editor) {outcome : Outcome} {event : Event}
    (h : outcome.event? = some event) (banner : Option Banner) :
    (e.conclude outcome banner).2 = (e.present [.newLine]).2 ∧
      (e.conclude outcome banner).1.heard =
        e.heard.map (· ++ Ended.delivered [⟨event, (e.present [.newLine]).2.isNone⟩]) := by
  cases outcome with
  | commit line => cases h; exact e.recordLine.finishLine_heard (.line line)
  | eof => cases h; exact e.finishLine_heard .eof
  | interrupted => cases h; exact e.finishLine_heard .interrupted
  | _ => cases h

theorem conclude_heard_of_open (e : Editor) {outcome : Outcome} (h : outcome.event? = none)
    (banner : Option Banner) : (e.conclude outcome banner).1.heard = e.heard := by
  cases outcome with
  | commit line => cases h
  | eof => cases h
  | interrupted => cases h
  | _ => rfl

/-! ## One keystroke -/

/-- The line that a key ends is told by the outcome of the action that it leads to. -/
theorem ended?_of_parse {stroke : Stroke} {mode : Mode} {action : Action}
    (hparse : e.mode.parse stroke = (mode, some action)) :
    e.ended? stroke =
      (action.apply ⟨e.config, mode.isCommandMode⟩ e.desk).2.outcome.event?.map fun event =>
        ⟨event, (e.present [.newLine]).2.isNone⟩ := by
  rw [ended?, hparse]
  rfl

theorem ended?_of_idle {stroke : Stroke} {mode : Mode}
    (hparse : e.mode.parse stroke = (mode, none)) : e.ended? stroke = none := by
  rw [ended?, hparse]
  rfl

/-- **One keystroke.**  The listener hears of the line that it ends if the screen could be put on
the next one.  If not, the keystroke fails. -/
theorem handle_heard (e : Editor) (stroke : Stroke) :
    (e.handle stroke).1.heard =
        e.heard.map (· ++ Ended.delivered (e.ended? stroke).toList) ∧
      ∀ line ∈ e.ended? stroke, line.shown = false →
        ∃ error, (e.handle stroke).2 = .error error := by
  show (e.perform stroke).1.heard = _ ∧
    ∀ line ∈ e.ended? stroke, line.shown = false → ∃ error, (e.perform stroke).2 = .error error
  rcases hparse : e.mode.parse stroke with ⟨mode, _ | action⟩
  · rw [ended?_of_idle hparse, perform, hparse]
    exact ⟨by simp [Ended.delivered], by simp⟩
  · rcases happly : action.apply ⟨e.config, mode.isCommandMode⟩ e.desk with ⟨after, reaction⟩
    let applied : Editor := { e with desk := reaction.desk, mode := mode.takeBack after }
    obtain ⟨hafter, hfails⟩ := carryOut_of_apply (e := { e with mode := mode }) happly
    have hperform : e.perform stroke = ({ e with mode := mode } : Editor).carryOut action := by
      rw [perform, hparse]
    rw [ended?_of_parse hparse, happly, hperform, hafter]
    cases hevent : reaction.outcome.event? with
    | none =>
      have hheard := applied.conclude_heard_of_open hevent reaction.banner
      exact ⟨by simpa [Ended.delivered] using hheard, by simp⟩
    | some event =>
      obtain ⟨hfailure, hheard⟩ := applied.conclude_heard_of_closed hevent reaction.banner
      refine ⟨hheard, fun line hline hlost => ?_⟩
      cases hline
      -- neither what is shown nor to whom depends on the action
      have hscreen : (e.present [.newLine]).2.isNone = false := hlost
      obtain ⟨error, herror⟩ := Option.isSome_iff_exists.mp (Option.isNone_eq_false_iff.mp hscreen)
      exact ⟨error, hfails error (hfailure.trans herror)⟩

/-- The history is given a line that is committed, whether or not the listener hears of it. -/
theorem remembers_handle {limit : Nat} {lines : List Text} (h : e.desk.Remembers limit lines)
    (stroke : Stroke) :
    (e.handle stroke).1.desk.Remembers limit
      (lines ++ Ended.committed (e.ended? stroke).toList) := by
  show (e.press stroke).desk.Remembers limit _
  rcases hparse : e.mode.parse stroke with ⟨mode, action?⟩
  have hpressed := pressed hparse
  generalize (e.press stroke).mode = afterMode, (e.press stroke).desk = desk at hpressed ⊢
  cases hpressed with
  | idle =>
    rw [ended?_of_idle hparse]
    simpa [Ended.committed] using h
  | @goesOn action after reaction applied unfinished =>
    have hspares := e.desk.spares_after ⟨e.config, mode.isCommandMode⟩ action
    rw [Desk.after, applied] at hspares
    rw [ended?_of_parse hparse, applied]
    simpa [Ended.committed, unfinished] using h.of_spares hspares
  | @ends action after reaction event applied finished =>
    have hspares := e.desk.spares_after ⟨e.config, mode.isCommandMode⟩ action
    rw [Desk.after, applied] at hspares
    have hline : ∀ line, event = .line line → line = reaction.desk.buffer.text := by
      rintro line rfl
      have hcommitted : line =
          (e.desk.after ⟨e.config, mode.isCommandMode⟩ action).buffer.text :=
        Desk.line_eq_of_ends (by rw [applied]; exact finished)
      rwa [Desk.after, applied] at hcommitted
    have hnext := (h.of_spares hspares).nextLine hline
    rw [ended?_of_parse hparse, applied]
    have hcommitted : Ended.committed [⟨event, (e.present [.newLine]).2.isNone⟩] =
        event.line?.toList := by
      rw [Ended.committed, List.filterMap_cons]
      cases event.line? <;> rfl
    simpa [finished, hcommitted] using hnext

/-! ## Runs -/

/-- What a run makes of the listener, and of the history. -/
theorem heard_runWithin (fuel : Nat) (e : Editor) :
    (runWithin fuel e).1.heard = e.heard.map (· ++ Ended.delivered (endedWithin fuel e)) := by
  have hnothing : ∀ heard : Option (List Event), heard = heard.map (· ++ Ended.delivered []) := by
    simp [Ended.delivered]
  induction fuel generalizing e with
  | zero => exact hnothing e.heard
  | succ fuel ih =>
    rw [runWithin, endedWithin]
    cases hnext : e.input.next? with
    | none => exact hnothing e.heard
    | some taken =>
      obtain ⟨stroke, input⟩ := taken
      have hstroke := (handle_heard { e with input := input } stroke).1
      change _ = e.heard.map (· ++ Ended.delivered (e.ended? stroke).toList) at hstroke
      dsimp only
      rcases hhandle : handle { e with input := input } stroke with ⟨middle, error | outcome?⟩
      · rw [hhandle] at hstroke
        simpa using hstroke
      · rw [hhandle] at hstroke
        show (runWithin fuel middle).1.heard = _
        rw [ih middle, hstroke]
        cases e.heard <;> simp

theorem remembers_runWithin {limit : Nat} {lines : List Text} (fuel : Nat)
    (h : e.desk.Remembers limit lines) :
    (runWithin fuel e).1.desk.Remembers limit
      (lines ++ Ended.committed (endedWithin fuel e)) := by
  have hnothing : ∀ {d : Desk} {lines}, d.Remembers limit lines →
      d.Remembers limit (lines ++ Ended.committed []) := by
    simp [Ended.committed]
  induction fuel generalizing e lines with
  | zero => exact hnothing h
  | succ fuel ih =>
    rw [runWithin, endedWithin]
    cases hnext : e.input.next? with
    | none => exact hnothing h
    | some taken =>
      obtain ⟨stroke, input⟩ := taken
      have hstroke := remembers_handle (e := { e with input := input }) h stroke
      change Desk.Remembers _ limit (lines ++ Ended.committed (e.ended? stroke).toList) at hstroke
      dsimp only
      rcases hhandle : handle { e with input := input } stroke with ⟨middle, error | outcome?⟩
      · rw [hhandle] at hstroke
        simpa using hstroke
      · rw [hhandle] at hstroke
        rw [Ended.committed_append, ← List.append_assoc]
        exact ih hstroke

/-- **A run swallows one line at most**, the last one that it ends, and answers with the reason. -/
theorem endedWithin_eq_append (fuel : Nat) (e : Editor) :
    ∃ (finished : List Ended) (lost? : Option Ended),
      endedWithin fuel e = finished ++ lost?.toList ∧ (∀ line ∈ finished, line.shown = true) ∧
        ∀ lost ∈ lost?, lost.shown = false ∧
          ∃ reason, (runWithin fuel e).2 = .error (.io reason) := by
  induction fuel generalizing e with
  | zero => exact ⟨[], none, rfl, by simp⟩
  | succ fuel ih =>
    rw [runWithin, endedWithin]
    cases hnext : e.input.next? with
    | none => exact ⟨[], none, rfl, by simp⟩
    | some taken =>
      obtain ⟨stroke, input⟩ := taken
      have hfails := (handle_heard { e with input := input } stroke).2
      change ∀ line ∈ e.ended? stroke, _ at hfails
      dsimp only
      rcases hhandle : handle { e with input := input } stroke with ⟨middle, error | outcome?⟩
      · obtain ⟨reason, rfl⟩ := exists_io_of_handle (congrArg Prod.snd hhandle)
        by_cases hshown : ∃ line ∈ e.ended? stroke, line.shown = false
        · obtain ⟨line, hline, hlost⟩ := hshown
          rw [Option.mem_def.mp hline]
          exact ⟨[], some line, by simp, by simp, by simp [hlost]⟩
        · refine ⟨(e.ended? stroke).toList, none, by simp, fun line hline => ?_, by simp⟩
          by_contra hlost
          exact hshown ⟨line, Option.mem_toList.mp hline, Bool.eq_false_iff.mpr hlost⟩
      · obtain ⟨finished, lost?, hended, hfinished, hlost⟩ := ih middle
        refine ⟨(e.ended? stroke).toList ++ finished, lost?, ?_, ?_, ?_⟩
        · simp [hended]
        · intro line hline
          rcases List.mem_append.mp hline with hfirst | hlater
          · by_contra hshown
            obtain ⟨error, herror⟩ := hfails line (Option.mem_toList.mp hfirst)
              (Bool.eq_false_iff.mpr hshown)
            rw [hhandle] at herror
            cases herror
          · exact hfinished line hlater
        · intro lost hmem
          obtain ⟨hshown, reason, hreason⟩ := hlost lost hmem
          refine ⟨hshown, reason, ?_⟩
          show (runWithin fuel middle).2.map _ = _
          rw [hreason]
          rfl

/-! ## Calls -/

theorem heard_serve (e : Editor) (call : Call) :
    (e.serve call).1.heard = e.heard.map (· ++ Ended.delivered (e.endedBy call)) := by
  have hnothing : e.heard = e.heard.map (· ++ Ended.delivered []) := by simp [Ended.delivered]
  cases call with
  | write bytes =>
    show (e.write bytes).1.heard = _
    rw [endedBy]
    cases hdecode : (e.decoder.decode bytes).error with
    | some error =>
      rw [write_of_error hdecode]
      exact hnothing
    | none =>
      rw [write_of_decoded hdecode]
      exact heard_runWithin _ _
  | bind sequence command => exact (e.faces_addCommand sequence command).heard.trans hnothing
  | _ => exact hnothing

theorem remembers_serve {limit : Nat} {lines : List Text} (h : e.desk.Remembers limit lines)
    (call : Call) :
    (e.serve call).1.desk.Remembers limit (lines ++ Ended.committed (e.endedBy call)) := by
  have hnothing : e.desk.Remembers limit (lines ++ Ended.committed []) := by
    simpa [Ended.committed] using h
  cases call with
  | write bytes =>
    show (e.write bytes).1.desk.Remembers limit _
    rw [endedBy]
    cases hdecode : (e.decoder.decode bytes).error with
    | some error =>
      rw [write_of_error hdecode]
      exact hnothing
    | none =>
      rw [write_of_decoded hdecode]
      exact remembers_runWithin _ h
  | bind sequence command =>
    rw [show (e.serve (.bind sequence command)).1.desk = e.desk from
      (e.faces_addCommand sequence command).desk]
    exact hnothing
  | _ => exact hnothing

theorem heard_served (e : Editor) (calls : List Call) :
    (e.serveAll calls).1.heard = e.heard.map (· ++ Ended.delivered (e.ended calls)) := by
  induction calls generalizing e with
  | nil =>
    show e.heard = e.heard.map (· ++ [])
    simp
  | cons call rest ih =>
    rw [serveAll, ended]
    dsimp only
    rw [ih, heard_serve]
    cases e.heard <;> simp

theorem remembers_served {limit : Nat} {lines : List Text} (h : e.desk.Remembers limit lines)
    (calls : List Call) :
    (e.serveAll calls).1.desk.Remembers limit (lines ++ Ended.committed (e.ended calls)) := by
  induction calls generalizing e lines with
  | nil => simpa [ended, serveAll, Ended.committed] using h
  | cons call rest ih =>
    rw [serveAll, ended, Ended.committed_append, ← List.append_assoc]
    exact ih (remembers_serve h call)

/-- **Which lines a failing screen swallows.**  Whatever the screen does, and whatever is asked of
an editor, the listener hears once, and in their order, of each line that ends and behind which the
screen can be put on the next line; and of no other line.  The history is given every line that is
committed, those too that the listener does not hear of.  A write swallows one line at most, the
last of those that it ends, and answers with the reason of the screen. -/
theorem heard_of_ended {events : List Event} (hheard : e.heard = some events)
    (calls : List Call) :
    let after := (e.serveAll calls).1
    after.heard = some (events ++ Ended.delivered (e.ended calls)) ∧
      (∀ limit lines, e.desk.Remembers limit lines →
        after.desk.history.entries =
          History.recorded limit (lines ++ Ended.committed (e.ended calls))) ∧
      ∀ bytes, ∃ (finished : List Ended) (lost? : Option Ended),
        after.endedBy (.write bytes) = finished ++ lost?.toList ∧
          (∀ line ∈ finished, line.shown = true) ∧
            ∀ lost ∈ lost?, lost.shown = false ∧
              ∃ reason, (after.write bytes).2 = .error (.io reason) := by
  intro after
  refine ⟨?_, fun limit lines h => (remembers_served h calls).entries, fun bytes => ?_⟩
  · rw [heard_served, hheard]
    rfl
  · cases hdecode : (after.decoder.decode bytes).error with
    | some error => exact ⟨[], none, by simp [endedBy, hdecode], by simp⟩
    | none =>
      rw [endedBy, write_of_decoded hdecode, if_pos hdecode]
      exact endedWithin_eq_append _ _

/-- Three lines, and the screen fails behind the second one.  What was typed behind it is kept, and
becomes a part of the third. -/
theorem heard_of_ended_around_failure :
    let sink : Sink := { Sink.reliable .utf8 with
      fate := fun number => if number = 3 then .refused "gone" else .written }
    let e := (new .default sink).withListener
    let calls : List Call := [.write [0x61, 0x0D, 0x62, 0x0D, 0x63], .write [0x64, 0x0D]]
    e.heard = some [] ∧
      e.ended calls =
        [⟨.line ['a'], true⟩, ⟨.line ['b'], false⟩, ⟨.line ['c', 'd'], true⟩] ∧
        (e.serveAll calls).1.heard = some [.line ['a'], .line ['c', 'd']] ∧
          (e.serveAll calls).1.desk.history.entries =
            History.recorded 500 [['a'], ['b'], ['c', 'd']] := by
  intro sink e calls
  have hended : e.ended calls =
      [⟨.line ['a'], true⟩, ⟨.line ['b'], false⟩, ⟨.line ['c', 'd'], true⟩] := by
    decide +kernel
  obtain ⟨hheard, hentries, -⟩ := heard_of_ended (e := e) rfl calls
  have hnone : e.desk.Remembers 500 [] := ⟨rfl, rfl, rfl⟩
  refine ⟨rfl, hended, ?_, ?_⟩
  · rw [hheard, hended]
    rfl
  · rw [hentries 500 [] hnone, hended]
    rfl

/-- A line is committed while the screen fails: it is in the history and gone from the editor, and
the listener has not heard of it. -/
theorem write_commit_unheard :
    let typed := ((new .default (.reliable .utf8)).withListener.write [0x61, 0x62]).1
    let e : Editor := { typed with
      sink := { typed.sink with fate := fun _ => .refused "sink failed" } }
    (e.write [0x0D]).2 = .error (.io "sink failed") ∧ (e.write [0x0D]).1.desk.buffer.text = [] ∧
      (e.write [0x0D]).1.desk.history.entries = [['a', 'b']] ∧
        (e.write [0x0D]).1.heard = some [] := by
  decide +kernel

end Editor

end PromptLine
