import PromptLine.Text

/-!
# Charsets

The encodings in which a transport can deliver and receive text, with the names they are known by.
Terminals send UTF-8; the others serve old devices, and transports that hand over 16-bit units.
-/

namespace PromptLine

/-- A byte encoding of text. -/
inductive Charset
  | utf8
  | utf16be
  | utf16le
  | latin1
  | ascii
  deriving DecidableEq, Repr, Inhabited

namespace Charset

/-- Every charset. -/
def all : List Charset := [utf8, utf16be, utf16le, latin1, ascii]

/-- The registered name, which is also the name that is shown. -/
def label : Charset → String
  | utf8 => "utf-8"
  | utf16be => "utf-16be"
  | utf16le => "utf-16le"
  | latin1 => "iso-8859-1"
  | ascii => "us-ascii"

/-- The short name, accepted beside the registered one. -/
def shortName : Charset → String
  | utf8 => "utf8"
  | utf16be => "utf16be"
  | utf16le => "utf16le"
  | latin1 => "latin1"
  | ascii => "ascii"

/-- The charset of a name, whichever of its two names it is and in any ASCII case. -/
def ofName? (name : Text) : Option Charset :=
  (Text.chooseAnyCase? all label name).or (Text.chooseAnyCase? all shortName name)

/-- The name that is shown can be read back. -/
theorem ofName?_label (charset : Charset) : ofName? charset.label.toList = some charset := by
  cases charset <;> decide

end Charset

end PromptLine
