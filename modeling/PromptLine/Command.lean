import PromptLine.Line.Motion
import PromptLine.Status

/-!
# Commands

A command is what a key can be bound to.  Most commands are a motion together with what is done to
the text it covers; for these the tables below give both parts.  A command without an operation of
its own takes the one of the operator that waits for it.
-/

namespace PromptLine

/-- Everything a key can be bound to. -/
inductive Command
  | selfInsert
  | forwardChar
  | backwardChar
  | beginningOfLine
  | endOfLine
  | forwardWord
  | backwardWord
  | deleteChar
  | backwardDeleteChar
  | deleteCharOrEof
  | killLine
  | backwardKillLine
  | killWholeLine
  | killWord
  | backwardKillWord
  | unixWordRubout
  | yank
  | undo
  | transposeChars
  | upcaseWord
  | downcaseWord
  | capitalizeWord
  | acceptLine
  | interrupt
  | previousHistory
  | nextHistory
  | beginningOfHistory
  | endOfHistory
  | clearScreen
  | complete
  | quotedInsert
  | reverseSearchHistory
  | forwardSearchHistory
  /-- The leader: the next key is looked up with an escape in front of it. -/
  | metaPrefix
  | viCommandMode
  /-- Escape where there is nothing to leave but a waiting operator. -/
  | viCancel
  | viInsert
  | viAppend
  | viInsertBeginning
  | viAppendEnd
  | viForwardWord
  | viForwardBigWord
  | viBackwardWord
  | viBackwardBigWord
  | viEndWord
  | viEndBigWord
  | viFirstNonBlank
  | viDeleteChar
  | viBackwardDeleteChar
  | viDeleteToEnd
  | viChangeToEnd
  | viSubstituteChar
  | viSubstituteLine
  | viDeleteOperator
  | viChangeOperator
  | viYankOperator
  | viUpCaseOperator
  | viDownCaseOperator
  | viWholeLine
  | viToggleCase
  | viReplace
  | viPasteAfter
  | viPasteBefore
  | viRepeat
  deriving DecidableEq, Repr

namespace Command

/-- Every command with the name it is bound by. -/
def names : List (Command × String) := [
  (selfInsert, "self-insert"),
  (forwardChar, "forward-char"),
  (backwardChar, "backward-char"),
  (beginningOfLine, "beginning-of-line"),
  (endOfLine, "end-of-line"),
  (forwardWord, "forward-word"),
  (backwardWord, "backward-word"),
  (deleteChar, "delete-char"),
  (backwardDeleteChar, "backward-delete-char"),
  (deleteCharOrEof, "delete-char-or-eof"),
  (killLine, "kill-line"),
  (backwardKillLine, "backward-kill-line"),
  (killWholeLine, "kill-whole-line"),
  (killWord, "kill-word"),
  (backwardKillWord, "backward-kill-word"),
  (unixWordRubout, "unix-word-rubout"),
  (yank, "yank"),
  (undo, "undo"),
  (transposeChars, "transpose-chars"),
  (upcaseWord, "upcase-word"),
  (downcaseWord, "downcase-word"),
  (capitalizeWord, "capitalize-word"),
  (acceptLine, "accept-line"),
  (interrupt, "interrupt"),
  (previousHistory, "previous-history"),
  (nextHistory, "next-history"),
  (beginningOfHistory, "beginning-of-history"),
  (endOfHistory, "end-of-history"),
  (clearScreen, "clear-screen"),
  (complete, "complete"),
  (quotedInsert, "quoted-insert"),
  (reverseSearchHistory, "reverse-search-history"),
  (forwardSearchHistory, "forward-search-history"),
  (metaPrefix, "meta-prefix"),
  (viCommandMode, "vi-command-mode"),
  (viCancel, "vi-cancel"),
  (viInsert, "vi-insert"),
  (viAppend, "vi-append"),
  (viInsertBeginning, "vi-insert-beginning"),
  (viAppendEnd, "vi-append-end"),
  (viForwardWord, "vi-forward-word"),
  (viForwardBigWord, "vi-forward-big-word"),
  (viBackwardWord, "vi-backward-word"),
  (viBackwardBigWord, "vi-backward-big-word"),
  (viEndWord, "vi-end-word"),
  (viEndBigWord, "vi-end-big-word"),
  (viFirstNonBlank, "vi-first-non-blank"),
  (viDeleteChar, "vi-delete-char"),
  (viBackwardDeleteChar, "vi-backward-delete-char"),
  (viDeleteToEnd, "vi-delete-to-end"),
  (viChangeToEnd, "vi-change-to-end"),
  (viSubstituteChar, "vi-substitute-char"),
  (viSubstituteLine, "vi-substitute-line"),
  (viDeleteOperator, "vi-delete-operator"),
  (viChangeOperator, "vi-change-operator"),
  (viYankOperator, "vi-yank-operator"),
  (viUpCaseOperator, "vi-up-case-operator"),
  (viDownCaseOperator, "vi-down-case-operator"),
  (viWholeLine, "vi-whole-line"),
  (viToggleCase, "vi-toggle-case"),
  (viReplace, "vi-replace"),
  (viPasteAfter, "vi-paste-after"),
  (viPasteBefore, "vi-paste-before"),
  (viRepeat, "vi-repeat")]

/-- The name of a command. -/
def label (command : Command) : String := (names.lookup command).getD ""

/-- The command of a name. -/
def ofName? (name : Text) : Option Command :=
  (names.find? fun entry => entry.2.toList == name).map (·.1)

/-- Commands that hold the input focus over several keys. -/
def takesFocus : Command → Bool
  | quotedInsert => true
  | reverseSearchHistory => true
  | forwardSearchHistory => true
  | _ => false

/-- The motion of a command that is made of one. -/
def motion? : Command → Option Motion
  | forwardChar | deleteChar | viDeleteChar | viSubstituteChar => some .forwardChar
  | backwardChar | backwardDeleteChar | viBackwardDeleteChar => some .backwardChar
  | beginningOfLine | backwardKillLine => some .lineStart
  | endOfLine | killLine | viDeleteToEnd | viChangeToEnd => some .lineEnd
  | forwardWord | killWord | upcaseWord | downcaseWord | capitalizeWord => some .forwardWord
  | backwardWord | backwardKillWord => some .backwardWord
  | killWholeLine | viWholeLine | viSubstituteLine => some .wholeLine
  | viForwardWord => some (.nextWord false)
  | viForwardBigWord => some (.nextWord true)
  | viBackwardWord => some (.previousWord false)
  | viBackwardBigWord | unixWordRubout => some (.previousWord true)
  | viEndWord => some (.wordEnd false)
  | viEndBigWord => some (.wordEnd true)
  | viFirstNonBlank => some .firstNonBlank
  | _ => none

/-- The motion a command has under an operation.  Changing up to the next word stops at the end of
this one, because the blanks between them are to stay. -/
def motionFor? (command : Command) (operation : Status) : Option Motion :=
  match command, operation with
  | viForwardWord, .change => some (.changeWord false)
  | viForwardBigWord, .change => some (.changeWord true)
  | _, _ => command.motion?

/-- The operation of a command that has one of its own, whatever operator waits. -/
def ownOperation? : Command → Option Status
  | deleteChar | backwardDeleteChar | killLine | backwardKillLine | killWholeLine | killWord
  | backwardKillWord | unixWordRubout | viDeleteChar | viBackwardDeleteChar | viDeleteToEnd =>
    some .delete
  | viChangeToEnd | viSubstituteChar | viSubstituteLine => some .change
  | upcaseWord => some .upCase
  | downcaseWord => some .downCase
  | capitalizeWord => some .capitalize
  | _ => none

end Command

end PromptLine
