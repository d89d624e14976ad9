import PromptLine.Unicode.Alphanumeric
import PromptLine.Text

/-!
# Motions

A motion computes where the cursor would go.  It touches nothing, so that a command can either go
there or do something to the text in between.

Two families of words live side by side.  A run of alphanumerics is a word of the plain motions;
the modal ones tell blanks, words and punctuation apart, and a *big* word is any run without
blanks.
-/

namespace PromptLine

/-- A way to move the cursor. -/
inductive Motion
  | forwardChar
  | backwardChar
  | lineStart
  | lineEnd
  | firstNonBlank
  /-- To the end of the next run of alphanumerics. -/
  | forwardWord
  /-- To the start of the previous run of alphanumerics. -/
  | backwardWord
  /-- To the start of the next word. -/
  | nextWord (big : Bool)
  /-- To the start of the word before. -/
  | previousWord (big : Bool)
  /-- To the last character of a word, which operators include. -/
  | wordEnd (big : Bool)
  /-- Behind the word, leaving the blanks after it.  From a blank, behind the word that follows. -/
  | changeWord (big : Bool)
  /-- All of the line, wherever the cursor is. -/
  | wholeLine
  deriving DecidableEq, Repr

/-- What a character is to the modal word motions. -/
inductive CharClass
  | blank
  | word
  | punctuation
  deriving DecidableEq, Repr

/-- The class of a character.  To a big word everything but a blank belongs. -/
def CharClass.of (big : Bool) (c : Char) : CharClass :=
  if Unicode.isBlank c then .blank
  else if big || Unicode.isAlphanumeric c || c == '_' then .word
  else .punctuation

namespace Motion

/-- How many characters at the front of a text satisfy a test. -/
def run (test : Char → Bool) (text : Text) : Nat := (text.takeWhile test).length

/-- How many characters at the front share the class of the first. -/
def classRun (big : Bool) (text : Text) : Nat :=
  match text with
  | [] => 0
  | c :: _ => run (fun d => CharClass.of big d == CharClass.of big c) text

/-- How many blanks are at the front, by class. -/
def blankRun (big : Bool) (text : Text) : Nat := run (fun c => CharClass.of big c == .blank) text

/-! Each of the following counts how far a motion goes from the start of the text it is given: the
text after the cursor, or the text before it read backwards. -/

/-- Over what is not alphanumeric, and then over the alphanumerics. -/
def wordSpan (text : Text) : Nat :=
  let gap := run (fun c => !Unicode.isAlphanumeric c) text
  gap + run Unicode.isAlphanumeric (text.drop gap)

/-- Over the word at the front, if there is one, and the blanks behind it. -/
def nextWordSpan (big : Bool) (text : Text) : Nat :=
  let word := if text.head?.map (CharClass.of big) = some .blank then 0 else classRun big text
  word + blankRun big (text.drop word)

/-- Over the blanks and the word behind them. -/
def changeWordSpan (big : Bool) (text : Text) : Nat :=
  let gap := blankRun big text
  gap + classRun big (text.drop gap)

/-- To the last character of the first word; the last character of all where there is no word. -/
def wordEndSpan (big : Bool) (text : Text) : Nat :=
  let gap := min (blankRun big text) (text.length - 1)
  gap + (classRun big (text.drop gap) - 1)

/-- Whether an operator takes the character under the target too. -/
def isInclusive : Motion → Bool
  | wordEnd _ => true
  | _ => false

/-- Where the cursor would go.  A cursor past the end counts as the end. -/
def target (motion : Motion) (line : Text) (cursor : Nat) : Nat :=
  let length := line.length
  let cursor := min cursor length
  let ahead := line.drop cursor
  let behind := (line.take cursor).reverse
  match motion with
  | forwardChar => min (cursor + 1) length
  | backwardChar => cursor - 1
  | lineStart => 0
  | lineEnd => length
  | wholeLine => length
  | firstNonBlank => run Unicode.isBlank line
  | forwardWord => cursor + wordSpan ahead
  | backwardWord => cursor - wordSpan behind
  | nextWord big => cursor + nextWordSpan big ahead
  | previousWord big => cursor - changeWordSpan big behind
  | wordEnd big =>
    if cursor + 1 < length then cursor + 1 + wordEndSpan big (line.drop (cursor + 1))
    else min cursor (length - 1)
  | changeWord big => cursor + changeWordSpan big ahead

/-- The target after `count` steps.  A step that leads nowhere ends the walk, since all further
steps would lead nowhere too. -/
def targetAfter (motion : Motion) (line : Text) : Nat → Nat → Nat
  | 0, cursor => cursor
  | count + 1, cursor =>
    let there := motion.target line cursor
    if there = cursor then cursor else targetAfter motion line count there

/-- From where a motion leads nowhere, any number of steps leads nowhere. -/
theorem targetAfter_of_fixed {motion : Motion} {line : Text} {cursor : Nat}
    (h : motion.target line cursor = cursor) (count : Nat) :
    motion.targetAfter line count cursor = cursor := by
  cases count with
  | zero => rfl
  | succ count => simp [targetAfter, h]

/-- So a walk is plain repetition: one step, and then the rest. -/
theorem targetAfter_succ (motion : Motion) (line : Text) (count cursor : Nat) :
    motion.targetAfter line (count + 1) cursor =
      motion.targetAfter line count (motion.target line cursor) := by
  by_cases h : motion.target line cursor = cursor
  · rw [h, targetAfter_of_fixed h, targetAfter_of_fixed h]
  · simp [targetAfter, h]

end Motion

end PromptLine
