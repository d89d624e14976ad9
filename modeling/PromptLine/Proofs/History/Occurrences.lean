import PromptLine.History

/-!
# What a search finds

A term is found at the first position at which the text goes on with it.  So the text read from
there starts with the term, and the position is never past the end of the text, not even for the
empty term.

A search through the history that hits stands on its hit: the entry at the search cursor is the one
that was returned, and it contains the term.
-/

namespace PromptLine

namespace Text

variable {term text : Text} {position : Nat}

/-- The text goes on with the term where the term was found. -/
theorem prefix_drop_of_find? (h : find? term text = some position) :
    term <+: text.drop position := by
  induction text generalizing position with
  | nil =>
    rw [find?] at h
    split at h
    · next hnil =>
      cases h
      exact hnil ▸ List.nil_prefix
    · cases h
  | cons c rest ih =>
    rw [find?] at h
    split at h
    · next hstarts =>
      cases h
      exact List.isPrefixOf_iff_prefix.mp hstarts
    · obtain ⟨before, hbefore, rfl⟩ := Option.map_eq_some_iff.mp h
      exact ih hbefore

/-- A term is found within the text, with room for all of it. -/
theorem find?_add_length_le (h : find? term text = some position) :
    position + term.length ≤ text.length := by
  induction text generalizing position with
  | nil =>
    rw [find?] at h
    split at h
    · next hnil =>
      cases h
      rw [hnil]
      exact Nat.le_refl 0
    · cases h
  | cons c rest ih =>
    rw [find?] at h
    split at h
    · next hstarts =>
      cases h
      rw [Nat.zero_add]
      exact (List.isPrefixOf_iff_prefix.mp hstarts).length_le
    · obtain ⟨before, hbefore, rfl⟩ := Option.map_eq_some_iff.mp h
      have hrest := ih hbefore
      rw [List.length_cons]
      omega

/-- What a text contains are its runs. -/
theorem contains_iff_infix : text.contains term = true ↔ term <:+: text := by
  constructor
  · intro h
    obtain ⟨position, hposition⟩ := Option.isSome_iff_exists.mp h
    exact (prefix_drop_of_find? hposition).isInfix.trans (List.drop_suffix position text).isInfix
  · intro h
    rw [contains]
    induction text with
    | nil =>
      obtain rfl := List.infix_nil.mp h
      rfl
    | cons c rest ih =>
      rw [find?]
      split
      · rfl
      · next hstarts =>
        rw [Option.isSome_map]
        rcases List.infix_cons_iff.mp h with hprefix | hlater
        · exact absurd (List.isPrefixOf_iff_prefix.mpr hprefix) hstarts
        · exact ih hlater

/-- Where the cursor is put on a text that may hold the term: never past its end. -/
theorem find?_getD_le (term text : Text) : (find? term text).getD 0 ≤ text.length := by
  cases h : find? term text with
  | none => exact Nat.zero_le _
  | some position => exact Nat.le_trans (Nat.le_add_right _ _) (find?_add_length_le h)

/-- On a text that is not empty it is put on a character. -/
theorem find?_getD_lt (term : Text) (h : text ≠ []) : (find? term text).getD 0 < text.length := by
  have hpos := List.length_pos_iff.mpr h
  cases hfind : find? term text with
  | none => exact hpos
  | some position =>
    have hwithin := find?_add_length_le hfind
    rw [Option.getD_some]
    cases term with
    | nil =>
      rw [find?_empty, Option.some.injEq] at hfind
      exact hfind ▸ hpos
    | cons c rest =>
      rw [List.length_cons] at hwithin
      omega

end Text

namespace History

variable {h after : History} {term line : Text}

@[simp] theorem entries_setDirection (h : History) (direction : Direction) :
    (h.setDirection direction).entries = h.entries := by
  rw [setDirection]
  split <;> rfl

/-- A search leaves the entries alone. -/
@[simp] theorem entries_search (h : History) (term : Text) :
    (h.search term).1.entries = h.entries := by
  rw [search]
  split <;> rfl

/-- **A search that hits stands on its hit.** -/
theorem search_eq_some (hsearch : h.search term = (after, some line)) :
    after.get? after.searchCursor = some line ∧ term <:+: line := by
  rw [search] at hsearch
  split at hsearch
  · cases hsearch
  · next index hfound =>
    obtain ⟨rfl, hline⟩ := Prod.mk.inj hsearch
    have hholds := List.find?_some hfound
    rw [holds, hline] at hholds
    exact ⟨hline, Text.contains_iff_infix.mp hholds⟩

/-- What a search returns is an entry. -/
theorem mem_entries_of_search (hsearch : h.search term = (after, some line)) :
    line ∈ h.entries := by
  have hhit := List.mem_of_getElem? (search_eq_some hsearch).1
  have hentries := entries_search h term
  rw [hsearch] at hentries
  exact hentries ▸ hhit

end History

end PromptLine
