import PromptLine.Proofs.Action.PartialOperations
import PromptLine.Proofs.Editor.Calls

/-!
# No key leads out of range

An editor that is asked for anything at all carries out actions, one after the other, each on the
line and the history that the ones before have left.  Here it is run once more with actions that
fail where a part of them is asked for what is not there, and that have to leave the cursor within
the line.  The first failure ends the run.

There is none.  A desk that is sound when a key arrives is sound after it, whether or not the screen
takes what is drawn, and on a sound desk no action fails.  A buffer that was built by its operations
is sound from the beginning, and so is a history, which may be changed from outside as well, between
any two calls.  So the two ways to run an editor agree on everything, and this is what
`stays_in_range` says.
-/

namespace PromptLine

/-- The next line begins on a sound desk if the one before ended on one. -/
theorem Desk.Sound.nextLine {d : Desk} (h : d.Sound) (event : Event) :
    (d.nextLine event).Sound := by
  refine ⟨h.buffer.replace [], ?_⟩
  cases event with
  | line text =>
    show (if d.buffer.masked then d.history else _).restartSearch.Sound
    split
    · exact h.history.restartSearch
    · exact (h.history.push d.buffer.text).restartSearch
  | eof => exact h.history.restartSearch
  | interrupted => exact h.history.restartSearch

namespace Editor

/-! ## An editor that can fail -/

/-- Applies an action and puts it back into the mode.  Fails if the action does, or if it leaves the
cursor behind the end of the line. -/
def applyAction? (e : Editor) (action : Action) : Option (Editor × Outcome × Option Banner) := do
  let (action, reaction) ← action.carryOut? e.setting e.desk
  if reaction.desk.buffer.cursor ≤ reaction.desk.buffer.length then
    some ({ e with desk := reaction.desk, mode := e.mode.takeBack action }, reaction.outcome,
      reaction.banner)
  else none

/-- Carries an action out. -/
def carryOut? (e : Editor) (action : Action) : Option (Editor × Handled) := do
  let (e, outcome, banner) ← e.applyAction? action
  some <|
    match e.conclude outcome banner with
    | (e, none) => (e, .ok (some outcome))
    | (e, some error) => (e, .error error)

/-- Makes an action of a keystroke and carries it out. -/
def perform? (e : Editor) (stroke : Stroke) : Option (Editor × Handled) :=
  let (mode, action?) := e.mode.parse stroke
  let e := { e with mode := mode }
  match action? with
  | none => some (e, .ok none)
  | some action => e.carryOut? action

/-- Deals with one keystroke. -/
def handle? (e : Editor) (stroke : Stroke) : Option (Editor × Handled) := do
  let (e, result) ← e.perform? stroke
  some ({ e with input := e.input.setTrie e.mode.keys }, result)

/-- Deals with keystroke after keystroke, as long as `fuel` lasts, up to the first error. -/
def runWithin? : Nat → Editor → Option (Editor × Except EditorError (List Outcome))
  | 0, e => some (e, .ok [])
  | fuel + 1, e =>
    match e.input.next? with
    | none => some (e, .ok [])
    | some (stroke, input) => do
      match ← handle? { e with input := input } stroke with
      | (e, .error error) => some (e, .error error)
      | (e, .ok outcome?) =>
        let (e, rest) ← runWithin? fuel e
        some (e, rest.map (outcome?.toList ++ ·))

/-- Takes bytes from the transport. -/
def write? (e : Editor) (bytes : List UInt8) :
    Option (Editor × Except EditorError (List Outcome)) :=
  let decoded := e.decoder.decode bytes
  let e := { e with decoder := decoded.decoder }
  match decoded.error with
  | some error => some (e, .error (.decode error))
  | none =>
    let e := { e with input := e.input.feed decoded.text }
    runWithin? e.input.pending.length e

/-- Serves a call. -/
def serve? (e : Editor) : Call → Option (Editor × List Outcome)
  | .write bytes => (e.write? bytes).map fun (e, result) => (e, result.toOption.getD [])
  | call => some (e.serve call)

/-! ## An editor and its history -/

/-- What can happen to an editor: it serves a call, or its history is changed from outside. -/
inductive Access
  | call (call : Call)
  | history (operation : History.Operation)
  deriving Repr

/-- The editor with the history after an operation. -/
def withHistory (e : Editor) (operation : History.Operation) : Editor :=
  { e with desk := { e.desk with history := e.desk.history.perform operation } }

/-- The editor after an access, and the outcomes of a write that succeeds. -/
def access (e : Editor) : Access → Editor × List Outcome
  | .call call => e.serve call
  | .history operation => (e.withHistory operation, [])

/-- The editor after one access after another, and the outcomes of all its writes. -/
def accessAll (e : Editor) : List Access → Editor × List Outcome
  | [] => (e, [])
  | access :: rest =>
    ((accessAll (e.access access).1 rest).1,
      (e.access access).2 ++ (accessAll (e.access access).1 rest).2)

/-- The same, for an editor that can fail. -/
def access? (e : Editor) : Access → Option (Editor × List Outcome)
  | .call call => e.serve? call
  | .history operation => some (e.withHistory operation, [])

/-- One access after another, up to the first failure. -/
def accessAll? (e : Editor) : List Access → Option (Editor × List Outcome)
  | [] => some (e, [])
  | access :: rest => do
    let (e, first) ← e.access? access
    let (e, later) ← accessAll? e rest
    some (e, first ++ later)

variable {e : Editor}

/-! ## One keystroke -/

theorem applyAction?_eq (h : e.desk.Sound) (action : Action) :
    e.applyAction? action = some (e.applyAction action) := by
  have hcursor := (h.after e.setting action).buffer.cursor
  rw [applyAction?, Action.carryOut?_eq h]
  exact if_pos hcursor

theorem carryOut?_eq (h : e.desk.Sound) (action : Action) :
    e.carryOut? action = some (e.carryOut action) := by
  rw [carryOut?, carryOut, applyAction?_eq h]
  rfl

theorem perform?_eq (h : e.desk.Sound) (stroke : Stroke) :
    e.perform? stroke = some (e.perform stroke) := by
  rw [perform?, perform]
  rcases e.mode.parse stroke with ⟨mode, _ | action⟩
  · rfl
  · exact carryOut?_eq (e := { e with mode := mode }) h action

/-- **A keystroke** that finds a sound desk is dealt with. -/
theorem handle?_eq (h : e.desk.Sound) (stroke : Stroke) :
    e.handle? stroke = some (e.handle stroke) := by
  rw [handle?, perform?_eq h]
  rfl

/-- A keystroke leaves a sound desk, whether or not the screen fails. -/
theorem sound_desk_handle (h : e.desk.Sound) (stroke : Stroke) :
    (e.handle stroke).1.desk.Sound := by
  show (e.press stroke).desk.Sound
  rcases hparse : e.mode.parse stroke with ⟨mode, action?⟩
  have hpressed := pressed hparse
  generalize (e.press stroke).mode = after, (e.press stroke).desk = desk at hpressed ⊢
  cases hpressed with
  | idle => exact h
  | @goesOn action _ _ applied =>
    have happlied := h.after ⟨e.config, mode.isCommandMode⟩ action
    rwa [Desk.after, applied] at happlied
  | @ends action _ _ _ applied =>
    have happlied := h.after ⟨e.config, mode.isCommandMode⟩ action
    rw [Desk.after, applied] at happlied
    exact happlied.nextLine _

/-! ## Runs -/

/-- **A run** that begins on a sound desk goes on to its end, and leaves a sound desk. -/
theorem runWithin?_eq (fuel : Nat) (h : e.desk.Sound) :
    runWithin? fuel e = some (runWithin fuel e) ∧ (runWithin fuel e).1.desk.Sound := by
  induction fuel generalizing e with
  | zero => exact ⟨rfl, h⟩
  | succ fuel ih =>
    rw [runWithin?, runWithin]
    cases e.input.next? with
    | none => exact ⟨rfl, h⟩
    | some taken =>
      obtain ⟨stroke, input⟩ := taken
      have hhandle := handle?_eq (e := { e with input := input }) h stroke
      have hsound := sound_desk_handle (e := { e with input := input }) h stroke
      dsimp only
      rw [hhandle]
      generalize handle { e with input := input } stroke = handled at hsound
      rcases handled with ⟨middle, error | outcome?⟩
      · exact ⟨rfl, hsound⟩
      · obtain ⟨hrest, hafter⟩ := ih (e := middle) hsound
        refine ⟨?_, hafter⟩
        show (runWithin? fuel middle).bind _ = _
        rw [hrest]
        rfl

theorem write?_eq (h : e.desk.Sound) (bytes : List UInt8) :
    e.write? bytes = some (e.write bytes) ∧ (e.write bytes).1.desk.Sound := by
  rw [write?, write]
  dsimp only
  cases (e.decoder.decode bytes).error with
  | some error => exact ⟨rfl, h⟩
  | none => exact runWithin?_eq _ h

theorem serve?_eq (h : e.desk.Sound) (call : Call) :
    e.serve? call = some (e.serve call) ∧ (e.serve call).1.desk.Sound := by
  cases call with
  | write bytes =>
    obtain ⟨hwrite, hafter⟩ := write?_eq h bytes
    refine ⟨?_, hafter⟩
    rw [serve?, hwrite]
    rfl
  | bind sequence command => exact ⟨rfl, (e.faces_addCommand sequence command).desk ▸ h⟩
  | _ => exact ⟨rfl, h⟩

theorem accessAll?_eq (h : e.desk.Sound) (accesses : List Access) :
    e.accessAll? accesses = some (e.accessAll accesses) ∧
      (e.accessAll accesses).1.desk.Sound := by
  induction accesses generalizing e with
  | nil => exact ⟨rfl, h⟩
  | cons access rest ih =>
    have haccess : e.access? access = some (e.access access) ∧ (e.access access).1.desk.Sound := by
      cases access with
      | call call => exact serve?_eq h call
      | history operation => exact ⟨rfl, h.buffer, h.history.perform operation⟩
    obtain ⟨hrest, hafter⟩ := ih haccess.2
    refine ⟨?_, hafter⟩
    rw [accessAll?, haccess.1]
    show (accessAll? (e.access access).1 rest).bind _ = _
    rw [hrest]
    rfl

/-- **No key leads out of range.**  Let an editor be in any mode, with any bindings, any input that
waits and any screen, and let its buffer and its history be built in any way.  Whatever is asked of
it from then on, and whatever becomes of the history in between, no part of an action is asked for
what is not there, and every action leaves the cursor within the line. -/
theorem stays_in_range (e : Editor) (masked : Bool) (edits : List LineBuffer.Operation)
    (limit : Nat) (operations : List History.Operation) (accesses : List Access) :
    let start : Editor := { e with
      desk := { e.desk with
        buffer := edits.foldl LineBuffer.perform (.empty masked)
        history := operations.foldl History.perform (.empty limit) } }
    start.accessAll? accesses = some (start.accessAll accesses) ∧
      (start.accessAll accesses).1.desk.buffer.cursor ≤
        (start.accessAll accesses).1.desk.buffer.length := by
  intro start
  have hstart : start.desk.Sound :=
    ⟨(LineBuffer.sound_empty masked).foldl_perform edits,
      (History.sound_empty limit).foldl_perform operations⟩
  obtain ⟨hagrees, hafter⟩ := accessAll?_eq hstart accesses
  exact ⟨hagrees, hafter.buffer.cursor⟩

end Editor

end PromptLine
