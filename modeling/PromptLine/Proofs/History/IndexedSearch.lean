import PromptLine.Proofs.History.Invariant
import PromptLine.Proofs.Line.PartialOperations

/-!
# Searching the history by index

A search visits indices and asks of each whether the entry there contains the term.  The entries are
looked up by their index, and where a search begins is computed from the search cursor and the
number of entries.  Both can fail: an index can be too large, and a subtraction can lead below zero.

`search?_eq` says that neither happens in a sound history.  It rests on where the search cursor can
be, so it would not hold of one that was left behind by entries that are gone.
-/

namespace PromptLine

namespace History

open Text

variable {h : History}

/-- The indices that a search visits, nearest first, computed from where it begins.  From the oldest
entry a search towards older ones cannot go on. -/
def visited? (h : History) (term : Text) : Option (List Nat) :=
  let again := h.lastTerm == some term
  if h.size = 0 then some []
  else
    match h.direction with
    | .reverse =>
      if again then
        match minus? h.searchCursor 1 with
        | none => some []
        | some start => some (List.range (start + 1)).reverse
      else do
        let newest ← minus? h.size 1
        some (List.range (min h.searchCursor newest + 1)).reverse
    | .forward =>
      let start := if again then h.searchCursor + 1 else h.searchCursor
      some (List.range' start (h.size - start))

/-- The first of some indices whose entry contains a term.  Fails at an index without an entry. -/
def firstHolding? (entries : List Text) (term : Text) : List Nat → Option (Option Nat)
  | [] => some none
  | index :: rest => do
    let line ← entries[index]?
    if Text.contains line term then some (some index) else firstHolding? entries term rest

/-- The next entry that contains a term. -/
def search? (h : History) (term : Text) : Option (History × Option Text) := do
  let indices ← h.visited? term
  match ← firstHolding? h.entries term indices with
  | none => some (h, none)
  | some index => some ({ h with searchCursor := index, lastTerm := some term }, h.get? index)

theorem visited?_eq (hsound : h.Sound) (term : Text) :
    h.visited? term = some (h.candidates term) := by
  have hcursor := hsound.searchCursor
  rw [visited?, candidates]
  dsimp only
  split
  · next hempty =>
    have hzero : h.searchCursor = 0 := by omega
    cases h.direction with
    | reverse => simp [hempty, hzero]
    | forward => simp [hempty]
  · next hsome =>
    have hpos : 1 ≤ h.size := Nat.pos_of_ne_zero hsome
    cases h.direction with
    | forward => rfl
    | reverse =>
      dsimp only
      split
      · rcases Nat.eq_zero_or_pos h.searchCursor with hzero | hback
        · rw [hzero]
          rfl
        · rw [minus?_of_le hback]
          show some (List.range (h.searchCursor - 1 + 1)).reverse = _
          rw [Nat.sub_add_cancel hback]
      · rw [minus?_of_le hpos]
        show some (List.range (min h.searchCursor (h.size - 1) + 1)).reverse = _
        have hcount : min h.searchCursor (h.size - 1) + 1 = min (h.searchCursor + 1) h.size := by
          omega
        rw [hcount]

theorem firstHolding?_eq (term : Text) {indices : List Nat}
    (hthere : ∀ index ∈ indices, index < h.size) :
    firstHolding? h.entries term indices = some (indices.find? (h.holds term)) := by
  induction indices with
  | nil => rfl
  | cons index rest ih =>
    have hindex : index < h.entries.length := hthere index List.mem_cons_self
    have hentry : h.entries[index]? = some h.entries[index] := List.getElem?_eq_getElem hindex
    have hholds : h.holds term index = Text.contains h.entries[index] term := by
      rw [holds, get?, hentry]
      rfl
    rw [firstHolding?, hentry, List.find?_cons, hholds]
    show (if Text.contains h.entries[index] term = true then _ else _) = _
    split
    · next hfound => rw [hfound]
    · next hmissed =>
      rw [Bool.eq_false_iff.mpr hmissed]
      exact ih fun other hother => hthere other (List.mem_cons_of_mem index hother)

/-- **A search looks up entries that are there.** -/
theorem search?_eq (hsound : h.Sound) (term : Text) : h.search? term = some (h.search term) := by
  have hthere : ∀ index ∈ h.candidates term, index < h.size :=
    fun _ => hsound.lt_size_of_mem_candidates
  rw [search?, visited?_eq hsound, search]
  show (firstHolding? h.entries term (h.candidates term)).bind _ = _
  rw [firstHolding?_eq term hthere]
  cases (h.candidates term).find? (h.holds term) <;> rfl

/-- A search cursor that was left behind by entries that are gone. -/
example : ({ History.empty 5 with entries := [['a']], searchCursor := 2, lastTerm := some ['b'] } :
    History).search? ['b'] = none := by decide

end History

end PromptLine
