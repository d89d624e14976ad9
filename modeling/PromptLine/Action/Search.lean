import PromptLine.Command
import PromptLine.Key.Stroke
import PromptLine.Line.Desk

/-!
# Incremental search of the history

While a search holds the focus, each key extends or shortens the term, goes on to another entry, or
ends the search.  A key first picks the next step, and applying the search carries the step out.
The line itself stays as it was until the end: what was found is shown in a banner.

At the end the line becomes the entry that was found last, even if the term has not matched since;
if nothing was ever found it becomes what it was.
-/

namespace PromptLine

/-- What a search does next. -/
inductive SearchStep
  | start
  /-- Look towards older entries. -/
  | older
  /-- Look towards newer entries. -/
  | newer
  /-- Take the last character off the term. -/
  | shorten
  /-- Finish the line with what was found. -/
  | accept
  /-- Put what was found into the line. -/
  | leave
  /-- Empty the line. -/
  | abort
  | leaveUp
  | leaveDown
  | leaveLeft
  | leaveRight
  deriving DecidableEq, Repr

/-- The name of a step. -/
def SearchStep.label : SearchStep → String
  | start => "NOT_STARTED"
  | older => "PREV"
  | newer => "NEXT"
  | shorten => "DELETE"
  | accept => "END"
  | leave => "EXIT"
  | abort => "INTERRUPT"
  | leaveUp => "MOVE_PREV"
  | leaveDown => "MOVE_NEXT"
  | leaveLeft => "MOVE_LEFT"
  | leaveRight => "MOVE_RIGHT"

/-- A search in progress. -/
structure Search where
  step : SearchStep
  direction : Direction
  term : Text
  /-- The entry found last; empty as long as none was. -/
  matched : Text
  /-- The line before the search. -/
  before : Text
  /-- Whether the term was looked for in vain. -/
  failed : Bool
  focused : Bool
  deriving DecidableEq, Repr

/-- The line that is shown during a search.  Its cursor stands on the term within what was
found. -/
def Banner.ofSearch (direction : Direction) (failed : Bool) (term matched : Text) : Banner :=
  let lead := "(".toList ++ (if failed then "failed ".toList else []) ++ direction.label.toList ++
    "-i-search) `".toList ++ term ++ "': ".toList
  ⟨lead ++ matched, lead.length + (Text.find? term matched).getD 0⟩

namespace Search

/-- A search that has not started. -/
def new (direction : Direction) : Search := ⟨.start, direction, [], [], [], false, true⟩

/-- The command that begins such a search. -/
def command (s : Search) : Command :=
  match s.direction with
  | .reverse => .reverseSearchHistory
  | .forward => .forwardSearchHistory

/-- The step that looks on in the direction of the search. -/
def stepOn (s : Search) : SearchStep :=
  match s.direction with
  | .reverse => .older
  | .forward => .newer

/-- Takes a key, given what it is bound to.  Printable characters belong to the term unless they
are bound to something that a search understands; any other key ends the search. -/
def input (s : Search) (resolved : Option Command) (stroke : Stroke) : Search :=
  match resolved with
  | some .reverseSearchHistory => { s with direction := .reverse, step := .older }
  | some .forwardSearchHistory => { s with direction := .forward, step := .newer }
  | some .backwardDeleteChar => { s with step := .shorten }
  | some .acceptLine => { s with step := .accept }
  | some .interrupt => { s with step := .abort }
  | some .previousHistory => { s with step := .leaveUp }
  | some .nextHistory => { s with step := .leaveDown }
  | some .backwardChar => { s with step := .leaveLeft }
  | some .forwardChar => { s with step := .leaveRight }
  | _ =>
    match stroke.printable? with
    | some c => { s with term := s.term ++ [c], step := s.stepOn }
    | none => { s with step := .leave }

/-- Looks for the term.  An empty term is found by not looking. -/
def look (setting : Setting) (s : Search) (h : History) : Search × History × Outcome :=
  let h := h.setDirection s.direction
  if s.term = [] then ({ s with failed := false }, h, .proceed)
  else
    match h.search s.term with
    | (h, some line) => ({ s with matched := line, failed := false }, h, .proceed)
    | (h, none) => ({ s with failed := true }, h, setting.bell)

/-- Gives the focus back, with the line as the search leaves it. -/
def finish (s : Search) (d : Desk) : Search × Desk :=
  let line :=
    if s.matched = [] then d.buffer.replace s.before
    else (d.buffer.replace s.matched).place ((Text.find? s.term s.matched).getD 0)
  ({ s with focused := false }, { d with buffer := line, history := d.history.restartSearch })

/-- The reaction of a search that goes on: its banner is shown. -/
def shown (s : Search) (d : Desk) (outcome : Outcome) : Search × Reaction :=
  (s, ⟨d, outcome, some (Banner.ofSearch s.direction s.failed s.term s.matched)⟩)

/-- Looks for the term and shows what came of it. -/
def lookOn (setting : Setting) (s : Search) (d : Desk) : Search × Reaction :=
  let (s, h, outcome) := s.look setting d.history
  s.shown { d with history := h } outcome

/-- Ends the search, and then does something to the line. -/
def finishWith (s : Search) (d : Desk) (f : LineBuffer → LineBuffer) : Search × Reaction :=
  let (s, d) := s.finish d
  (s, ⟨d.withBuffer (f d.buffer), .proceed, none⟩)

/-- Carries the step out. -/
def apply (setting : Setting) (s : Search) (d : Desk) : Search × Reaction :=
  match s.step with
  | .start =>
    let h := (d.history.setDirection s.direction).restartSearch
    shown { s with before := d.buffer.text } { d with history := h } .proceed
  | .older | .newer => s.lookOn setting d
  | .shorten =>
    let s := { s with term := s.term.dropLast }
    if s.term = [] then
      shown { s with matched := [], failed := false }
        { d with history := d.history.restartSearch } .proceed
    else s.lookOn setting d
  | .accept =>
    let (s, d) := s.finish d
    (s, ⟨d, .commit d.buffer.text, none⟩)
  | .leave | .leaveUp => s.finishWith d id
  | .leaveDown => s.finishWith d fun b => b.place b.length
  | .leaveLeft => s.finishWith d (·.move (-1))
  | .leaveRight => s.finishWith d (·.move 1)
  | .abort =>
    ({ s with focused := false },
      ⟨{ d with buffer := d.buffer.clear, history := d.history.restartSearch }, .proceed, none⟩)

end Search

end PromptLine
