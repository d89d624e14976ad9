import PromptLine.Mode.Emacs
import PromptLine.Mode.Entry

/-!
# The modal dispatcher

What a key means hangs on the status.  An operator such as `d` only changes the status; the motion
that follows finds its own entry under that status, and carries the operation into the action it
makes.  So operators and motions are composed by the table alone.

Digits are counts where text is not being typed.  A count before an operator and a count before its
motion are multiplied.
-/

namespace PromptLine

namespace Vi

/-! ## The bindings -/

/-- The operators, each with the status that follows when its motion is done. -/
def operators : List (Status × Status) :=
  [(.delete, .command), (.change, .edit), (.yank, .command), (.upCase, .command),
    (.downCase, .command)]

/-- A declaration: one entry of one key. -/
abbrev Declaration := Stroke × Entry

/-- An entry of a named key. -/
def entry (key : Key) (command : Command) (required next : Status) (recording : Recording) :
    Declaration :=
  (.ofKey key, ⟨command, required, next, recording⟩)

/-- A key of command status. -/
def command (key : Key) (command : Command) (next : Status) (recording : Recording) :
    List Declaration :=
  [entry key command .command next recording]

/-- A key that edits while text is typed. -/
def edit (key : Key) (command : Command) : List Declaration :=
  [entry key command .edit .edit .never]

/-- A key that does the same while text is typed and in command status. -/
def both (key : Key) (c : Command) : List Declaration :=
  edit key c ++ command key c .command .never

/-- A motion: it moves the cursor, or gives an operator its range. -/
def motion (key : Key) (c : Command) : List Declaration :=
  entry key c .command .command .withOperator ::
    operators.map fun (pending, next) => entry key c pending next .withOperator

/-- An operator. -/
def operator (stroke : Stroke) (c : Command) (pending : Status) : List Declaration :=
  [(stroke, ⟨c, .command, pending, .never⟩)]

/-- An operator typed twice works on the whole line. -/
def doubled (key : Key) (pending next : Status) : List Declaration :=
  [entry key .viWholeLine pending next .withOperator]

/-- Keys that move the cursor. -/
def motions : List (Key × Command) := [
  (.char 'h', .backwardChar),
  (.char 'l', .forwardChar),
  (.char ' ', .forwardChar),
  (.char '0', .beginningOfLine),
  (.char '^', .viFirstNonBlank),
  (.char '$', .endOfLine),
  (.char 'w', .viForwardWord),
  (.char 'W', .viForwardBigWord),
  (.char 'b', .viBackwardWord),
  (.char 'B', .viBackwardBigWord),
  (.char 'e', .viEndWord),
  (.char 'E', .viEndBigWord)]

/-- Keys that move the cursor while text is typed, too. -/
def cursorKeys : List (Key × Command) := [
  (.left, .backwardChar),
  (.right, .forwardChar),
  (.leftSs3, .backwardChar),
  (.rightSs3, .forwardChar),
  (.home, .beginningOfLine),
  (.endKey, .endOfLine),
  (.homeSs3, .beginningOfLine),
  (.endSs3, .endOfLine)]

/-- The operators and their doubled forms.  Two of them are two keys long. -/
def operatorKeys : List Declaration :=
  operator (.ofKey (.char 'd')) .viDeleteOperator .delete ++
  doubled (.char 'd') .delete .command ++
  operator (.ofKey (.char 'c')) .viChangeOperator .change ++
  doubled (.char 'c') .change .edit ++
  operator (.ofKey (.char 'y')) .viYankOperator .yank ++
  doubled (.char 'y') .yank .command ++
  operator (.ofSequence ['g', 'U']) .viUpCaseOperator .upCase ++
  doubled (.char 'U') .upCase .command ++
  operator (.ofSequence ['g', 'u']) .viDownCaseOperator .downCase ++
  doubled (.char 'u') .downCase .command

/-- Keys that begin to insert. -/
def insertingKeys : List Declaration :=
  command (.char 'i') .viInsert .edit .never ++
  command (.char 'a') .viAppend .edit .never ++
  command (.char 'I') .viInsertBeginning .edit .never ++
  command (.char 'A') .viAppendEnd .edit .never

/-- Keys that change the line by themselves. -/
def changeKeys : List Declaration :=
  command (.char 'x') .viDeleteChar .command .always ++
  command (.char 'X') .viBackwardDeleteChar .command .always ++
  command (.char 'D') .viDeleteToEnd .command .always ++
  command (.char 'C') .viChangeToEnd .edit .always ++
  command (.char 's') .viSubstituteChar .edit .always ++
  command (.char 'S') .viSubstituteLine .edit .always ++
  command (.char '~') .viToggleCase .command .always ++
  command (.char 'p') .viPasteAfter .command .always ++
  command (.char 'P') .viPasteBefore .command .always ++
  command (.char 'r') .viReplace .replace .never ++
  command (.char '.') .viRepeat .again .never ++
  command (.char 'u') .undo .command .never

/-- Keys that go through the history. -/
def historyKeys : List Declaration :=
  command (.char 'j') .nextHistory .command .never ++
  command (.char 'k') .previousHistory .command .never ++
  command (.char '/') .reverseSearchHistory .command .never ++
  command (.char '?') .forwardSearchHistory .command .never ++
  both .up .previousHistory ++
  both .down .nextHistory ++
  both .upSs3 .previousHistory ++
  both .downSs3 .nextHistory

/-- Keys that end or redraw the line. -/
def controlKeys : List Declaration :=
  both .enter .acceptLine ++
  both .newline .acceptLine ++
  both (.ctrl 'C') .interrupt ++
  both (.ctrl 'D') .deleteCharOrEof ++
  both (.ctrl 'L') .clearScreen

/-- Keys that edit while text is typed, and some of them otherwise in command status. -/
def editingKeys : List Declaration :=
  edit .tab .complete ++
  edit (.ctrl 'R') .reverseSearchHistory ++
  edit (.ctrl 'S') .forwardSearchHistory ++
  edit (.ctrl 'V') .quotedInsert ++
  edit (.ctrl 'W') .unixWordRubout ++
  edit (.ctrl 'U') .backwardKillLine ++
  edit (.ctrl 'K') .killLine ++
  edit (.ctrl 'Y') .yank ++
  edit .backspace .backwardDeleteChar ++
  command .backspace .backwardChar .command .never ++
  edit (.ctrl 'H') .backwardDeleteChar ++
  command (.ctrl 'H') .backwardChar .command .never ++
  edit .delete .deleteChar ++
  command .delete .viDeleteChar .command .always

/-- Escape stops inserting, and takes an operator back. -/
def escapeKey : List Declaration :=
  entry .escape .viCommandMode .edit .command .never ::
  entry .escape .viCancel .command .command .never ::
  operators.map fun (pending, _) => entry .escape .viCancel pending .command .never

/-- Everything that is bound, entry by entry. -/
def declarations : List Declaration :=
  motions.flatMap (fun (key, c) => motion key c) ++
  cursorKeys.flatMap (fun (key, c) => edit key c ++ motion key c) ++
  operatorKeys ++ insertingKeys ++ changeKeys ++ historyKeys ++ controlKeys ++ editingKeys ++
  escapeKey

/-- Adds an entry to those of its key. -/
def group (groups : List (Stroke × Entries)) (declaration : Declaration) :
    List (Stroke × Entries) :=
  match groups with
  | [] => [(declaration.1, [declaration.2])]
  | (stroke, entries) :: rest =>
    if stroke.same declaration.1 then (stroke, entries ++ [declaration.2]) :: rest
    else (stroke, entries) :: group rest declaration

/-- The bindings before a device has its say: the entries of each key, in the order in which they
were declared. -/
def defaults : Bindings Entries := ⟨declarations.foldl group []⟩

end Vi

/-! ## The dispatcher -/

/-- The state of the modal dispatcher. -/
structure Vi where
  table : Keymap Entries
  /-- The sequences that mean something while text is typed. -/
  insertTrie : Trie
  status : Status
  lastChange : Option Action
  /-- The count being typed. -/
  count : Option Nat
  /-- The count that was typed before the operator that waits. -/
  operatorCount : Option Nat
  focus : Option Focus
  deriving DecidableEq, Repr

namespace Vi

/-- The largest count.  What is typed beyond it is ignored. -/
def countLimit : Nat := 9999

/-- The trie of the sequences that have an entry for typing text.  Without it a typed `g` would wait
for the rest of a command. -/
def insertTrieOf (table : Keymap Entries) : Trie :=
  .ofList ((table.bindings.entries.filter fun binding => (binding.2.for? .edit).isSome).map (·.1))

/-- The dispatcher of a table, in its initial state. -/
def ofTable (table : Keymap Entries) : Vi :=
  ⟨table, insertTrieOf table, .edit, none, none, none, none⟩

/-- What a device's own key for deleting to the end of the line does. -/
def killToEol : Entries := [⟨.killLine, .edit, .edit, .never⟩]

/-- The dispatcher for a device. -/
def start (report : DeviceReport) : Vi :=
  ofTable (.ofBindings (report.remap (some killToEol) defaults))

/-! ## Counts -/

/-- Forgets the counts. -/
def forgetCounts (m : Vi) : Vi := { m with count := none, operatorCount := none }

/-- The digit a key adds to the count, if it does.  A zero by itself is a motion. -/
def countDigit? (m : Vi) (stroke : Stroke) : Option Nat :=
  if m.status.takesText then none
  else
    match stroke.single? with
    | none => none
    | some c =>
      if c.isDigit = true ∧ ¬(c = '0' ∧ m.count = none) then some (c.toNat - 48) else none

/-- Appends a digit to the count. -/
def pushDigit (m : Vi) (digit : Nat) : Vi :=
  { m with count := some (min (m.count.getD 0 * 10 + digit) countLimit) }

/-- The count of an action: the product of the two that can be typed. -/
def totalCount (m : Vi) : Nat := m.operatorCount.getD 1 * m.count.getD 1

/-! ## Keys -/

/-- What a key means to an action in focus, which takes text: what it means while text is typed. -/
def textCommand? (m : Vi) (stroke : Stroke) : Option Command :=
  ((m.table.get? stroke).bind fun entries => entries.for? .edit).map (·.command)

/-- The key that replaces the character under the cursor. -/
def replaceWith (m : Vi) (stroke : Stroke) : Vi × Option Action :=
  let m := { m.forgetCounts with status := .command }
  match stroke.printable? with
  | none => (m, none)
  | some c => ({ m with lastChange := some (.replaceChar c) }, some (.replaceChar c))

/-- A key without an entry for the status. -/
def unbound (m : Vi) (stroke : Stroke) : Vi × Option Action :=
  if m.status = .edit then (m, Action.ofStroke? stroke) else (m.forgetCounts, none)

/-- A key with an entry for the status. -/
def follow (m : Vi) (entry : Entry) : Vi × Option Action :=
  if entry.command.takesFocus then
    let action := Action.ofCommand entry.command .move 1
    ({ m.forgetCounts with focus := action.focusAfter m.focus }, some action)
  else if entry.next = .again then
    (m.forgetCounts, m.lastChange)
  else
    let begins := entry.next.awaitsMotion && !m.status.awaitsMotion
    let count := if begins then 1 else m.totalCount
    let counted :=
      if begins then { m with operatorCount := m.count, count := none } else m.forgetCounts
    let action := Action.ofCommand entry.command m.status.operation count
    let lastChange := if entry.isRecorded m.status then some action else m.lastChange
    ({ counted with status := entry.next, lastChange := lastChange }, some action)

/-- Makes what a key means out of it, once it is known that no action has the focus. -/
def resolve (m : Vi) (stroke : Stroke) : Vi × Option Action :=
  match m.countDigit? stroke with
  | some digit => (m.pushDigit digit, none)
  | none =>
    if m.status = .replace then m.replaceWith stroke
    else
      match (m.table.get? stroke).bind fun entries => entries.for? m.status with
      | some entry => m.follow entry
      | none => m.unbound stroke

/-- Makes what a key means out of it. -/
def parse (m : Vi) (stroke : Stroke) : Vi × Option Action :=
  match Focus.route m.focus (m.textCommand? stroke) stroke with
  | (f, some action) => ({ m with focus := f }, some action)
  | (f, none) => resolve { m with focus := f } stroke

/-- The entry of a sequence bound later: it works in command status and stays there. -/
def addedEntry (command : Command) : Entry :=
  ⟨command, .command, .command, if command.motion?.isSome then .withOperator else .never⟩

/-- Binds one more sequence. -/
def addCommand (m : Vi) (sequence : Text) (command : Command) : Except BindingError Vi :=
  (m.table.bindSequence sequence [addedEntry command]).map fun table =>
    { m with table := table, insertTrie := insertTrieOf table }

/-- The sequences that input is cut by in the current status. -/
def keys (m : Vi) : Trie := if m.status.takesText then m.insertTrie else m.table.trie

/-- Whether the cursor has to stand on a character. -/
def isCommandMode (m : Vi) : Bool := m.status != .edit

/-- Back to the initial state, keeping the bindings and the remembered change. -/
def reset (m : Vi) : Vi := { m.forgetCounts with status := .edit, focus := none }

end Vi

end PromptLine
