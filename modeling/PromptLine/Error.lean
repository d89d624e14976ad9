import PromptLine.Charset.Decoder
import PromptLine.Config
import PromptLine.Key.Keymap

/-!
# Errors

Every way in which the library can refuse something, with what is shown for it: a message, a stable
code to look it up by, and for some errors a hint.
-/

namespace PromptLine

/-- An error of a session. -/
inductive EditorError
  | decode (error : DecodeError)
  | binding (error : BindingError)
  | config (error : ConfigError)
  /-- The device failed, for the reason it gives. -/
  | io (reason : String)
  deriving DecidableEq, Repr

/-- What is shown for undecodable input. -/
def DecodeError.message : DecodeError → String
  | malformed charset offset =>
    "Malformed " ++ charset.label ++ " input at byte offset " ++ toString offset
  | poisoned => "Decoder was already stopped by malformed input"

/-- What is shown for a binding that was refused. -/
def BindingError.message : BindingError → String
  | duplicate sequence => "Key sequence " ++ sequence ++ " is bound more than once"
  | empty => "Can't bind an empty key sequence"
  | missing sequence => "Key sequence " ++ sequence ++ " is not bound, so it can't be rebound"
  | unknownCommand name => "Unknown action name '" ++ String.ofList name ++ "'"

/-- What is shown for an option that was not set. -/
def ConfigError.message : ConfigError → String
  | invalidValue option value =>
    "Option " ++ String.ofList option ++ " can't be set to '" ++ String.ofList value ++ "'"
  | unknownOption option => "Unknown option " ++ String.ofList option

namespace EditorError

/-- What is shown for an error. -/
def message : EditorError → String
  | decode error => error.message
  | binding error => error.message
  | config error => error.message
  | io reason => reason

/-- The code of an error within its family. -/
def codePath : EditorError → String
  | decode (.malformed _ _) => "decoder::malformed_input"
  | decode .poisoned => "decoder::poisoned"
  | binding (.duplicate _) => "keys::duplicate_binding"
  | binding .empty => "keys::empty_sequence"
  | binding (.missing _) => "keys::missing_binding"
  | binding (.unknownCommand _) => "keys::unknown_action"
  | config (.invalidValue _ _) => "config::invalid_value"
  | config (.unknownOption _) => "config::unknown_option"
  | io _ => "io"

/-- The code an error is looked up by. -/
def code (error : EditorError) : String := "r3bl_line_editor::" ++ error.codePath

/-- A hint what to do, for the errors that have one. -/
def help? : EditorError → Option String
  | decode (.malformed _ _) =>
    some "The transport is sending bytes that don't match the configured charset"
  | decode .poisoned => some "Create a new session, this decoder instance can't be reused"
  | binding (.duplicate _) => some "Use `rebind` to move an existing binding to a new sequence"
  | binding (.unknownCommand _) =>
    some "Action names are kebab-case, eg: 'forward-word', 'accept-line'"
  | config (.unknownOption _) =>
    some "Recognized options: EDITING_MODE, HISTORY_SIZE, DISABLE_COMPLETION, BELL_STYLE"
  | _ => none

end EditorError

end PromptLine
