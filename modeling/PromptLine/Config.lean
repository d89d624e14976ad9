import PromptLine.History

/-!
# Configuration

Four options, each read from a text.  Blanks around names and values and the case of ASCII letters
do not matter.  A value that an option does not accept is an error that shows the value as it was
given.
-/

namespace PromptLine

/-- The way keys are read. -/
inductive EditingMode
  | emacs
  | vi
  deriving DecidableEq, Repr, Inhabited

/-- The name of an editing mode. -/
def EditingMode.label : EditingMode → String
  | emacs => "emacs"
  | vi => "vi"

/-- The editing mode of a name. -/
def EditingMode.ofName? (name : Text) : Option EditingMode :=
  Text.chooseAnyCase? [emacs, vi] label name

/-- The name that is shown can be read back. -/
theorem EditingMode.ofName?_label (mode : EditingMode) :
    ofName? mode.label.toList = some mode := by
  cases mode <;> decide

/-- How the bell is rung. -/
inductive BellStyle
  | none
  | audible
  | visible
  deriving DecidableEq, Repr

/-- The name of a bell style. -/
def BellStyle.label : BellStyle → String
  | none => "none"
  | audible => "audible"
  | visible => "visible"

/-- The bell style of a name. -/
def BellStyle.ofName? (name : Text) : Option BellStyle :=
  Text.chooseAnyCase? [none, audible, visible] label name

/-- The name that is shown can be read back. -/
theorem BellStyle.ofName?_label (style : BellStyle) :
    ofName? style.label.toList = some style := by
  cases style <;> decide

/-- What can be set. -/
inductive ConfigOption
  | editingMode
  | historySize
  | disableCompletion
  | bellStyle
  deriving DecidableEq, Repr

namespace ConfigOption

/-- Every option. -/
def all : List ConfigOption := [editingMode, historySize, disableCompletion, bellStyle]

/-- The name of an option. -/
def label : ConfigOption → String
  | editingMode => "EDITING_MODE"
  | historySize => "HISTORY_SIZE"
  | disableCompletion => "DISABLE_COMPLETION"
  | bellStyle => "BELL_STYLE"

/-- The option of a name. -/
def ofName? (name : Text) : Option ConfigOption := Text.chooseAnyCase? all label name

/-- The name that is shown can be read back. -/
theorem ofName?_label (option : ConfigOption) : ofName? option.label.toList = some option := by
  cases option <;> decide

end ConfigOption

/-- Why an option was not set. -/
inductive ConfigError
  | invalidValue (option : Text) (value : Text)
  | unknownOption (option : Text)
  deriving DecidableEq, Repr

/-- The options of a session. -/
structure Config where
  editingMode : EditingMode
  historySize : Nat
  disableCompletion : Bool
  bellStyle : BellStyle
  deriving DecidableEq, Repr

namespace Config

/-- What holds for options that are not set. -/
def default : Config := ⟨.emacs, History.defaultLimit, false, .audible⟩

/-- A truth value: one of four words for each, in any case. -/
def readBool? (text : Text) : Option Bool :=
  if ["true", "on", "yes", "1"].any fun word => Text.sameLetters word.toList text then some true
  else if ["false", "off", "no", "0"].any fun word => Text.sameLetters word.toList text then
    some false
  else none

/-- The value of decimal digits, from a value that stands in front of them. -/
def readDigits? (value : Nat) : Text → Option Nat
  | [] => some value
  | c :: rest => if c.isDigit then readDigits? (value * 10 + (c.toNat - 48)) rest else none

/-- The first number that does not fit in 64 bits. -/
def sizeBound : Nat := 0x10000000000000000

/-- A number that fits in 64 bits, in decimal digits with at most one plus sign in front. -/
def readSize? (text : Text) : Option Nat :=
  let digits := match text with
    | '+' :: rest => rest
    | _ => text
  if digits = [] then none else (readDigits? 0 digits).filter (· < sizeBound)

/-- The configuration with one option set, if the value, without its blanks, is acceptable. -/
def update? (config : Config) (option : ConfigOption) (value : Text) : Option Config :=
  match option with
  | .editingMode => (EditingMode.ofName? value).map fun mode => { config with editingMode := mode }
  | .historySize => (readSize? value).map fun size => { config with historySize := size }
  | .disableCompletion => (readBool? value).map fun b => { config with disableCompletion := b }
  | .bellStyle => (BellStyle.ofName? value).map fun style => { config with bellStyle := style }

/-- Sets one option. -/
def set (config : Config) (option : ConfigOption) (value : Text) : Except ConfigError Config :=
  match config.update? option value.trim with
  | some config => .ok config
  | none => .error (.invalidValue option.label.toList value)

/-- Sets the option of a name. -/
def setNamed (config : Config) (name value : Text) : Except ConfigError Config :=
  match ConfigOption.ofName? name.trim with
  | some option => config.set option value
  | none => .error (.unknownOption name)

/-- Sets options by name, one after another, up to the first error. -/
def setAll (config : Config) : List (Text × Text) → Except ConfigError Config
  | [] => .ok config
  | (name, value) :: rest => (config.setNamed name value).bind (setAll · rest)

/-- The configuration of a list of names and values.  Where an option occurs twice, the later value
holds. -/
def ofOptions (pairs : List (Text × Text)) : Except ConfigError Config := default.setAll pairs

/-- Sets those of the options that have a value, in a fixed order. -/
def setFrom (lookup : ConfigOption → Option Text) (config : Config) :
    List ConfigOption → Except ConfigError Config
  | [] => .ok config
  | option :: rest =>
    match lookup option with
    | none => setFrom lookup config rest
    | some value => (config.set option value).bind (setFrom lookup · rest)

/-- The configuration of a look-up that knows some of the options. -/
def ofLookup (lookup : ConfigOption → Option Text) : Except ConfigError Config :=
  setFrom lookup default ConfigOption.all

end Config

end PromptLine
