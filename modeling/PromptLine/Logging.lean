import PromptLine.Config

/-!
# Log settings

Logging is off unless a level and a place to write to are given.  A log file needs a folder and a
name, and both are read off its path.
-/

namespace PromptLine

/-- How much is logged. -/
inductive LogLevel
  | off
  | error
  | warn
  | info
  | debug
  | trace
  deriving DecidableEq, Repr

namespace LogLevel

/-- Every level, from the least to the most that is logged. -/
def all : List LogLevel := [off, error, warn, info, debug, trace]

/-- The name of a level. -/
def label : LogLevel → String
  | off => "off"
  | error => "error"
  | warn => "warn"
  | info => "info"
  | debug => "debug"
  | trace => "trace"

/-- The level of a name, or of its place in the order of the levels.  An empty name asks for
errors. -/
def ofName? (name : Text) : Option LogLevel :=
  match name with
  | [] => some .error
  | _ =>
    match Config.readSize? name with
    | some place => all[place]?
    | none => Text.chooseAnyCase? all label name

/-- What is shown for a name that is none. -/
def rejection : String :=
  "error parsing level filter: expected one of \"off\", \"error\", \"warn\", \"info\", " ++
    "\"debug\", \"trace\", or a number 0-5"

end LogLevel

/-- The streams of a terminal. -/
inductive LogStream
  | stdout
  | stderr
  deriving DecidableEq, Repr

/-- Where log lines go, and how many. -/
structure LogSettings where
  stream : Option LogStream
  file : Option Text
  level : LogLevel
  deriving DecidableEq, Repr

namespace LogSettings

/-- The file that is written to when none is named. -/
def defaultFile : Text := "line_editor_log.txt".toList

/-- No logging at all. -/
def silent : LogSettings := ⟨none, none, .off⟩

/-- Logging to a stream. -/
def toStream (stream : LogStream) (level : LogLevel) : LogSettings := ⟨some stream, none, level⟩

/-- Logging to a file. -/
def toFile (path : Option Text) (level : LogLevel) : LogSettings :=
  ⟨none, some (path.getD defaultFile), level⟩

/-- Logging to both. -/
def toBoth (path : Option Text) (stream : LogStream) (level : LogLevel) : LogSettings :=
  ⟨some stream, some (path.getD defaultFile), level⟩

/-- Whether there is a place to write to. -/
def hasWriter (s : LogSettings) : Bool := s.stream.isSome || s.file.isSome

/-- Whether anything is logged. -/
def isEnabled (s : LogSettings) : Bool := s.level != .off && s.hasWriter

/-- How many layers logging is made of: one for the level and one for each place. -/
def layers? (s : LogSettings) : Option Nat :=
  if s.isEnabled then
    some (1 + (if s.stream.isSome then 1 else 0) + if s.file.isSome then 1 else 0)
  else none

end LogSettings

/-! ## Paths of log files -/

/-- The pieces of a path between its separators. -/
def pathPieces (path : Text) : List Text :=
  let (piece, pieces) := path.foldr
    (fun c (piece, pieces) => if c = '/' then ([], piece :: pieces) else (c :: piece, pieces))
    (([], []) : Text × List Text)
  piece :: pieces

/-- The part of a path that names something: its last piece that is neither empty nor a dot.  A
path that is only a dot names the folder one is in. -/
inductive PathEnd
  /-- Nothing but the root, or nothing at all. -/
  | nothing
  /-- A folder that has no name of its own here. -/
  | folder
  | name (piece : Text)
  deriving DecidableEq, Repr

/-- Where a path ends. -/
def pathEnd (path : Text) : PathEnd :=
  let pieces := pathPieces path
  match (pieces.filter fun piece => piece ≠ [] ∧ piece ≠ ['.']).getLast? with
  | some piece => if piece = ['.', '.'] then .folder else .name piece
  | none => if pieces.head? = some ['.'] then .folder else .nothing

/-- Why a log file cannot have a path, if it cannot. -/
def logPathProblem? (path : Text) : Option String :=
  match pathEnd path with
  | .nothing =>
    some ("Can't access the folder of " ++ String.ofList path ++
      ". It might not exist, or you may not have permission.")
  | .folder =>
    some ("Can't get a file name from " ++ String.ofList path ++
      ". It must not end in `..` or a separator.")
  | .name _ => none

end PromptLine
