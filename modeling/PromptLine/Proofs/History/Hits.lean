import Mathlib.Data.List.Range
import Mathlib.Data.List.Sort
import PromptLine.Proofs.History.Occurrences

/-!
# Which entries a search comes to

A search looks at some indices, one after the other, and stops at the first one whose entry holds
the term.  Where it begins depends on the direction, on the search cursor, and on whether the term
is the one that was found last; so a single search says little about what the next one will find.

What can be said at once of all the searches for a term is what they have yet to come to.  These
entries are the list `ahead`: it is sorted in the direction of the search, a search that finds
something answers with the first of the list, and leaves the rest of it ahead (`ahead_search`).  A
search that was started anew has all entries ahead that hold the term, so asking again and again
gives each of them once, and then nothing any more.
-/

namespace PromptLine

namespace Direction

/-- A search in this direction comes to the first index before it comes to the second. -/
def Before : Direction → Nat → Nat → Prop
  | reverse, i, j => j < i
  | forward, i, j => i < j

variable {direction : Direction} {i j k : Nat}

theorem Before.asymm (h : direction.Before i j) : ¬direction.Before j i := by
  cases direction <;> exact Nat.lt_asymm h

theorem Before.trans (hij : direction.Before i j) (hjk : direction.Before j k) :
    direction.Before i k := by
  cases direction with
  | reverse => exact Nat.lt_trans hjk hij
  | forward => exact Nat.lt_trans hij hjk

instance (direction : Direction) : Std.Irrefl direction.Before :=
  ⟨fun _ h => h.asymm h⟩

instance (direction : Direction) : Std.Antisymm direction.Before :=
  ⟨fun _ _ hij hji => absurd hji hij.asymm⟩

/-- An index at which a search that starts at another one can arrive: that one itself, or one behind
it. -/
def Onward (direction : Direction) (i j : Nat) : Prop := i = j ∨ direction.Before i j

end Direction

namespace History

variable {h : History} {term line : Text} {index : Nat}

/-! ## Holding a term -/

/-- The entries that hold a term are those of which it is a run. -/
theorem holds_iff : h.holds term index = true ↔ ∃ line, h.get? index = some line ∧ term <:+: line := by
  rw [holds, Option.any_eq_true]
  simp only [Text.contains_iff_infix]

/-- An entry that holds a term is there. -/
theorem lt_size_of_holds (hholds : h.holds term index = true) : index < h.size := by
  obtain ⟨line, hline, -⟩ := holds_iff.mp hholds
  exact (List.getElem?_eq_some_iff.mp hline).1

/-! ## The indices that a search visits -/

/-- A search visits its candidates in its direction. -/
theorem pairwise_candidates (h : History) (term : Text) :
    (h.candidates term).Pairwise h.direction.Before := by
  rw [candidates]
  cases h.direction with
  | reverse =>
    rw [List.pairwise_reverse]
    exact List.pairwise_lt_range
  | forward => exact List.pairwise_lt_range'

/-- A term that was found last is looked for behind its last hit. -/
theorem mem_candidates_of_again (hterm : h.lastTerm = some term) (hindex : index < h.size) :
    index ∈ h.candidates term ↔ h.direction.Before h.searchCursor index := by
  rw [candidates, hterm]
  cases h.direction with
  | reverse => simp [Direction.Before]
  | forward =>
    simp only [beq_self_eq_true, if_true, List.mem_range'_1, Direction.Before]
    omega

/-- Another term is looked for from the search cursor on, the cursor itself included. -/
theorem mem_candidates_of_other (hterm : h.lastTerm ≠ some term) (hindex : index < h.size) :
    index ∈ h.candidates term ↔ h.direction.Onward h.searchCursor index := by
  have hother : (h.lastTerm == some term) = false := by simpa using hterm
  rw [candidates, hother, Direction.Onward]
  cases h.direction with
  | reverse =>
    simp only [Bool.false_eq_true, if_false, List.mem_reverse, List.mem_range, Direction.Before]
    omega
  | forward =>
    simp only [Bool.false_eq_true, if_false, List.mem_range'_1, Direction.Before]
    omega

/-- Behind an index that a search visits it visits all others. -/
theorem mem_candidates_of_before {first second : Nat} (hfirst : first ∈ h.candidates term)
    (hthere : first < h.size) (hsecond : second < h.size)
    (hbefore : h.direction.Before first second) : second ∈ h.candidates term := by
  by_cases hterm : h.lastTerm = some term
  · rw [mem_candidates_of_again hterm hthere] at hfirst
    rw [mem_candidates_of_again hterm hsecond]
    exact hfirst.trans hbefore
  · rw [mem_candidates_of_other hterm hthere] at hfirst
    rw [mem_candidates_of_other hterm hsecond]
    rcases hfirst with hcursor | hbehind
    · exact .inr (hcursor ▸ hbefore)
    · exact .inr (hbehind.trans hbefore)

/-! ## What a search has ahead of it -/

/-- The indices of the entries that hold a term, of those that a search for it has yet to come to. -/
def ahead (h : History) (term : Text) : List Nat := (h.candidates term).filter (h.holds term)

theorem pairwise_ahead (h : History) (term : Text) :
    (h.ahead term).Pairwise h.direction.Before :=
  (h.pairwise_candidates term).filter _

theorem mem_ahead : index ∈ h.ahead term ↔ index ∈ h.candidates term ∧ h.holds term index = true :=
  List.mem_filter

theorem mem_ahead_of_again (hterm : h.lastTerm = some term) :
    index ∈ h.ahead term ↔
      h.direction.Before h.searchCursor index ∧ h.holds term index = true := by
  rw [mem_ahead]
  exact and_congr_left fun hholds => mem_candidates_of_again hterm (lt_size_of_holds hholds)

theorem mem_ahead_of_other (hterm : h.lastTerm ≠ some term) :
    index ∈ h.ahead term ↔
      h.direction.Onward h.searchCursor index ∧ h.holds term index = true := by
  rw [mem_ahead]
  exact and_congr_left fun hholds => mem_candidates_of_other hterm (lt_size_of_holds hholds)

/-- Nothing that a search finds is nearer than what is ahead first. -/
theorem not_before_of_ahead {rest : List Nat} (hahead : h.ahead term = index :: rest) {other : Nat}
    (hother : other ∈ h.ahead term) : ¬h.direction.Before other index := by
  have hsorted := h.pairwise_ahead term
  rw [hahead] at hsorted hother
  intro hbefore
  rcases List.mem_cons.mp hother with rfl | hrest
  · exact hbefore.asymm hbefore
  · exact hbefore.asymm ((List.pairwise_cons.mp hsorted).1 other hrest)

theorem find?_candidates (h : History) (term : Text) :
    (h.candidates term).find? (h.holds term) = (h.ahead term).head? :=
  List.head?_filter.symm

theorem search_eq (h : History) (term : Text) :
    h.search term =
      match (h.candidates term).find? (h.holds term) with
      | none => (h, none)
      | some index => ({ h with searchCursor := index, lastTerm := some term }, h.get? index) :=
  rfl

/-- A search that has nothing ahead changes nothing. -/
theorem search_of_ahead_nil (hahead : h.ahead term = []) : h.search term = (h, none) := by
  rw [search_eq, find?_candidates, hahead]
  rfl

/-- A search answers with what is ahead first, and stands there. -/
theorem search_of_ahead_cons {rest : List Nat} (hahead : h.ahead term = index :: rest) :
    h.search term =
      ({ h with searchCursor := index, lastTerm := some term }, h.get? index) := by
  rw [search_eq, find?_candidates, hahead]
  rfl

/-- A search that finds nothing changes nothing. -/
theorem eq_of_search_none {after : History} (hsearch : h.search term = (after, none)) :
    after = h := by
  rw [search_eq] at hsearch
  split at hsearch
  · exact (Prod.mk.inj hsearch).1.symm
  · next index hfind =>
    have hthere := lt_size_of_holds (List.find?_some hfind)
    exact absurd (Prod.mk.inj hsearch).2 (by simpa [get?, size] using hthere)

@[simp] theorem direction_search (h : History) (term : Text) :
    (h.search term).1.direction = h.direction := by
  rw [search]
  split <;> rfl

/-- **A search leaves ahead what comes behind its hit.** -/
theorem ahead_search {rest : List Nat} (hahead : h.ahead term = index :: rest) :
    (h.search term).1.ahead term = rest := by
  obtain ⟨hvisited, hholds⟩ := mem_ahead.mp (hahead ▸ List.mem_cons_self)
  have hthere := lt_size_of_holds hholds
  have hsorted := h.pairwise_ahead term
  rw [hahead, List.pairwise_cons] at hsorted
  rw [search_of_ahead_cons hahead]
  -- both lists are sorted in the same direction, so it is enough that they have the same members
  refine (pairwise_ahead _ term).eq_of_mem_iff hsorted.2 fun other => ?_
  have hmember : other ∈ rest ↔ other ∈ h.ahead term ∧ h.direction.Before index other := by
    rw [hahead, List.mem_cons]
    constructor
    · exact fun hrest => ⟨.inr hrest, hsorted.1 other hrest⟩
    · rintro ⟨rfl | hrest, hbefore⟩
      · exact absurd hbefore hbefore.asymm
      · exact hrest
  have hagain : ({ h with searchCursor := index, lastTerm := some term } : History).lastTerm =
    some term := rfl
  rw [hmember, mem_ahead_of_again hagain, mem_ahead]
  constructor
  · rintro ⟨hbehind, hother⟩
    exact ⟨⟨mem_candidates_of_before hvisited hthere (lt_size_of_holds hother) hbehind, hother⟩,
      hbehind⟩
  · rintro ⟨⟨-, hother⟩, hbehind⟩
    exact ⟨hbehind, hother⟩

/-- A search that was started anew has all entries ahead that hold the term. -/
theorem mem_ahead_restartSearch :
    index ∈ h.restartSearch.ahead term ↔ ∃ line, h.get? index = some line ∧ term <:+: line := by
  rw [mem_ahead, ← holds_iff]
  refine ⟨And.right, fun hholds => ⟨?_, hholds⟩⟩
  have hthere := lt_size_of_holds hholds
  have hother : h.restartSearch.lastTerm ≠ some term := (Option.some_ne_none term).symm
  refine (mem_candidates_of_other hother hthere).mpr ?_
  rw [restartSearch, Direction.Onward]
  cases h.direction with
  | reverse => exact .inr hthere
  | forward =>
    rcases Nat.eq_zero_or_pos index with hzero | hpos
    · exact .inl hzero.symm
    · exact .inr hpos

/-! ## Asking for a term again and again -/

/-- The answers to a number of searches for the same term, each with the index at which the entry
was found. -/
def answers (term : Text) : Nat → History → List (Option (Nat × Text))
  | 0, _ => []
  | count + 1, h =>
    let searched := h.search term
    searched.2.map (searched.1.searchCursor, ·) :: answers term count searched.1

/-- The answer that an index stands for. -/
def answerAt (h : History) (index : Nat) : Option (Nat × Text) := (h.get? index).map (index, ·)

/-- **Searches for a term answer with what is ahead**, in this order, and then with nothing. -/
theorem answers_eq (h : History) (term : Text) (count : Nat) :
    h.answers term count =
      ((h.ahead term).take count).map h.answerAt ++
        List.replicate (count - (h.ahead term).length) none := by
  induction count generalizing h with
  | zero => simp [answers]
  | succ count ih =>
    rw [answers, ih]
    cases hahead : h.ahead term with
    | nil =>
      rw [search_of_ahead_nil hahead, hahead, List.take_nil, List.take_nil]
      rfl
    | cons index rest =>
      have hentries : (h.search term).1.answerAt = h.answerAt := by
        funext other
        rw [answerAt, get?, entries_search]
        rfl
      rw [ahead_search hahead, hentries, search_of_ahead_cons hahead, List.length_cons,
        Nat.add_sub_add_right]
      rfl

/-- Where a search comes to from the search cursor: to the nearest entry from there on that holds
the term, or nowhere if there is none. -/
def ComesTo (h : History) (term : Text) : Option Nat → Prop
  | some index =>
    h.direction.Onward h.searchCursor index ∧ h.holds term index = true ∧
      ∀ other, h.direction.Onward h.searchCursor other → h.holds term other = true →
        ¬h.direction.Before other index
  | none => ∀ other, h.direction.Onward h.searchCursor other → h.holds term other = false

/-- **Asked for another term**, a history tries the entry on which it stands first, and then those
that follow. -/
theorem comesTo_of_other (hterm : h.lastTerm ≠ some term) :
    h.ComesTo term (h.ahead term).head? := by
  cases hahead : h.ahead term with
  | nil =>
    intro other honward
    by_contra hholds
    have hmem := (mem_ahead_of_other hterm).mpr ⟨honward, Bool.eq_true_of_not_eq_false hholds⟩
    rw [hahead] at hmem
    cases hmem
  | cons index rest =>
    obtain ⟨honward, hholds⟩ := (mem_ahead_of_other hterm).mp (hahead ▸ List.mem_cons_self)
    exact ⟨honward, hholds, fun other hother hfound =>
      not_before_of_ahead hahead ((mem_ahead_of_other hterm).mpr ⟨hother, hfound⟩)⟩

/-- **A search of the history is complete and goes in order.**  After a fresh start, searches for a
term answer with the entries of which it is a run, each index once and in the direction of the
search, and with nothing from then on.  A search that finds nothing leaves the history as it was.  A
search for another term than the one that was found last answers with the nearest entry that holds
it, from the search cursor on. -/
theorem answers_restartSearch (h : History) (term : Text) :
    let hits := h.restartSearch.ahead term
    hits.Pairwise h.direction.Before ∧
      (∀ index, index ∈ hits ↔ ∃ line, h.get? index = some line ∧ term <:+: line) ∧
      (∀ count, h.restartSearch.answers term count =
        (hits.take count).map h.answerAt ++ List.replicate (count - hits.length) none) ∧
      ((h.search term).2 = none → (h.search term).1 = h) ∧
      (h.lastTerm ≠ some term → ∃ nearest, h.ComesTo term nearest ∧
        h.search term =
          match nearest with
          | none => (h, none)
          | some index =>
            ({ h with searchCursor := index, lastTerm := some term }, h.get? index)) := by
  intro hits
  refine ⟨h.restartSearch.pairwise_ahead term, fun _ => mem_ahead_restartSearch,
    fun count => h.restartSearch.answers_eq term count, fun hmiss => ?_, fun hother => ?_⟩
  · exact eq_of_search_none (Prod.ext rfl hmiss)
  · refine ⟨_, comesTo_of_other hother, ?_⟩
    rw [search_eq, find?_candidates]

/-- Towards older entries, from an entry at which another term was found: that entry itself comes
first.  After a fresh start all of them are found, the latest one first, and in the other direction
the oldest one first. -/
theorem answers_restartSearch_of_three :
    let h : History :=
      { History.empty 5 with
        entries := [['a', 'b'], ['a'], ['b']], searchCursor := 1, lastTerm := some [] }
    let onward : History := { h with direction := .forward }
    (h.restartSearch.answers ['a'] 3 = [some (1, ['a']), some (0, ['a', 'b']), none]) ∧
      (onward.restartSearch.answers ['a'] 3 = [some (0, ['a', 'b']), some (1, ['a']), none]) ∧
      h.search ['a'] = ({ h with lastTerm := some ['a'] }, some ['a']) ∧
        h.ComesTo ['a'] (some 1) := by
  intro h onward
  obtain ⟨-, -, hanswers, -, hother⟩ := answers_restartSearch h ['a']
  obtain ⟨-, -, honward, -, -⟩ := answers_restartSearch onward ['a']
  obtain ⟨nearest, hcomes, hsearch⟩ := hother (by decide)
  have hfound : h.search ['a'] = ({ h with lastTerm := some ['a'] }, some ['a']) := by decide
  refine ⟨(hanswers 3).trans (by decide), (honward 3).trans (by decide), hfound, ?_⟩
  rw [hfound] at hsearch
  cases nearest with
  | none => cases (Prod.mk.inj hsearch).2
  | some index =>
    have hcursor : 1 = index := congrArg (fun answer => answer.1.searchCursor) hsearch
    rwa [hcursor]

end History

end PromptLine
