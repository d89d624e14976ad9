import PromptLine.Unicode.Ranges

/-!
# Text as a list of code points

Lines, history entries, search terms and key sequences are all texts, and every position and
length in this library counts code points.  A list says this directly: a position is a length of a
prefix, and nothing has to be said about where an encoded character starts.
-/

namespace PromptLine

/-- A text, one element per code point. -/
abbrev Text := List Char

namespace Text

/-- Where `term` first occurs, if it occurs.  The empty term occurs at once. -/
def find? (term : Text) : Text → Option Nat
  | [] => if term = [] then some 0 else none
  | c :: rest => if term.isPrefixOf (c :: rest) then some 0 else (find? term rest).map (· + 1)

/-- Whether `term` occurs as a contiguous run. -/
def contains (text term : Text) : Bool :=
  (find? term text).isSome

/-- The text without the blanks at either end. -/
def trim (text : Text) : Text :=
  ((text.dropWhile Unicode.isBlank).reverse.dropWhile Unicode.isBlank).reverse

/-- Equality up to the case of ASCII letters; every other code point has to agree. -/
def sameLetters (a b : Text) : Bool :=
  a.map Char.toLower == b.map Char.toLower

/-- The first item whose name is the text, letter by letter. -/
def choose? {α : Type} (items : List α) (nameOf : α → String) (text : Text) : Option α :=
  items.find? fun item => (nameOf item).toList == text

/-- The first item whose name is the text up to ASCII case. -/
def chooseAnyCase? {α : Type} (items : List α) (nameOf : α → String) (text : Text) : Option α :=
  items.find? fun item => sameLetters (nameOf item).toList text

@[simp] theorem find?_empty (text : Text) : find? [] text = some 0 := by
  cases text <;> rfl

@[simp] theorem contains_empty (text : Text) : contains text [] = true := by
  simp [contains]

end Text

end PromptLine
