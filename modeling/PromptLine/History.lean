import PromptLine.Text

/-!
# The history of lines

Lines that were entered are kept oldest first, up to a limit.  Two cursors walk over them
independently of each other:

* the *fetch cursor*, for stepping to older and newer lines.  Behind the newest entry it stands on
  the line that is still being edited, of which the history keeps a draft;
* the *search cursor*, for finding entries that contain a term.

Everything that changes which entries there are puts both cursors back.
-/

namespace PromptLine

/-- Which way a search goes. -/
inductive Direction
  /-- Towards older entries. -/
  | reverse
  /-- Towards newer entries. -/
  | forward
  deriving DecidableEq, Repr, Inhabited

namespace Direction

/-- The name of a direction. -/
def label : Direction → String
  | reverse => "reverse"
  | forward => "forward"

/-- The direction of a name. -/
def ofName? (name : Text) : Option Direction := Text.choose? [reverse, forward] label name

end Direction

/-- The lines entered so far. -/
structure History where
  /-- Oldest first. -/
  entries : List Text
  limit : Nat
  /-- The line being edited, as it was when the fetch cursor left it. -/
  draft : Text
  fetchCursor : Nat
  searchCursor : Nat
  direction : Direction
  /-- The term found last, unless the search was reset since. -/
  lastTerm : Option Text
  deriving DecidableEq, Repr

namespace History

/-- The limit unless told otherwise. -/
def defaultLimit : Nat := 500

/-- A history without entries. -/
def empty (limit : Nat) : History := ⟨[], limit, [], 0, 0, .reverse, none⟩

/-- How many entries there are. -/
def size (h : History) : Nat := h.entries.length

/-- The entry at an index, counted from the oldest. -/
def get? (h : History) (index : Nat) : Option Text := h.entries[index]?

/-! ## The cursors at rest -/

/-- Puts the fetch cursor on the line being edited. -/
def toDraft (h : History) : History := { h with fetchCursor := h.size }

/-- Puts the search cursor where a search in the current direction starts, and forgets the term
found last. -/
def restartSearch (h : History) : History :=
  { h with
    searchCursor := match h.direction with
      | .reverse => h.size
      | .forward => 0
    lastTerm := none }

/-- Changes the direction, which starts the search anew.  The direction that holds already changes
nothing. -/
def setDirection (h : History) (direction : Direction) : History :=
  if h.direction = direction then h else restartSearch { h with direction := direction }

/-! ## The entries -/

/-- A text without anything but blanks. -/
def isBlankLine (text : Text) : Bool := text.all Unicode.isBlank

/-- Appends a line, unless it is blank or repeats the newest entry.  A full history gives up its
oldest entry. -/
def push (h : History) (line : Text) : History :=
  let kept :=
    if isBlankLine line = true ∨ h.entries.getLast? = some line ∨ h.limit = 0 then h.entries
    else (if h.size = h.limit then h.entries.tail else h.entries) ++ [line]
  ({ h with entries := kept }).toDraft.restartSearch

/-- Changes the limit.  The oldest entries go at once if there are too many. -/
def setLimit (h : History) (limit : Nat) : History :=
  ({ h with limit := limit, entries := h.entries.drop (h.size - limit) }).toDraft.restartSearch

/-- Forgets all entries, but not the draft. -/
def clear (h : History) : History := ({ h with entries := [] }).toDraft.restartSearch

/-! ## Fetching -/

/-- Keeps the line being edited. -/
def setDraft (h : History) (line : Text) : History := { h with draft := line }

/-- Whether the fetch cursor is on the line being edited. -/
def isOnDraft (h : History) : Bool := h.fetchCursor == h.size

/-- One step to the older side, stopping at the oldest entry. -/
def previous (h : History) : History × Option Text :=
  if h.entries = [] then (h, none)
  else
    let index := h.fetchCursor - 1
    ({ h with fetchCursor := index }, h.get? index)

/-- One step to the newer side.  Behind the newest entry comes the draft, however often one steps
there. -/
def next (h : History) : History × Text :=
  let index := if h.fetchCursor < h.size then h.fetchCursor + 1 else h.fetchCursor
  ({ h with fetchCursor := index }, (h.get? index).getD h.draft)

/-- To the oldest entry. -/
def first (h : History) : History × Option Text := ({ h with fetchCursor := 0 }, h.get? 0)

/-- Back to the draft. -/
def last (h : History) : History × Text := (h.toDraft, h.draft)

/-! ## Searching -/

/-- Whether the entry at an index contains a term. -/
def holds (h : History) (term : Text) (index : Nat) : Bool :=
  (h.get? index).any (Text.contains · term)

/-- The indices a search for a term visits, nearest first.  A term found before is looked for
behind its last hit, a new term from the last hit itself on. -/
def candidates (h : History) (term : Text) : List Nat :=
  let again := h.lastTerm == some term
  match h.direction with
  | .reverse =>
    let count := if again then h.searchCursor else min (h.searchCursor + 1) h.size
    (List.range count).reverse
  | .forward =>
    let start := if again then h.searchCursor + 1 else h.searchCursor
    List.range' start (h.size - start)

/-- The next entry that contains a term.  A miss changes nothing. -/
def search (h : History) (term : Text) : History × Option Text :=
  match (h.candidates term).find? (h.holds term) with
  | none => (h, none)
  | some index => ({ h with searchCursor := index, lastTerm := some term }, h.get? index)

/-! ## Small facts -/

@[simp] theorem entries_toDraft (h : History) : h.toDraft.entries = h.entries := rfl

@[simp] theorem entries_restartSearch (h : History) : h.restartSearch.entries = h.entries := rfl

@[simp] theorem isOnDraft_toDraft (h : History) : h.toDraft.isOnDraft = true := by
  simp [isOnDraft, toDraft, size]

end History

end PromptLine
