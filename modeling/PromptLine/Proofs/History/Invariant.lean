import Mathlib.Data.List.Chain
import PromptLine.Proofs.History.Occurrences

/-!
# What holds of a history at all times

A history is changed in eleven ways: lines are put in, the limit and the direction are changed, two
cursors are moved.  Its entries stay few enough, none of them blank and no two neighbours equal, and
both cursors stay where an entry is or right behind the newest one.

A search that goes on from its last hit relies on more than that.  As long as the term found last is
remembered, the search cursor is on an entry that holds it.  Taking an entry away shifts all the
others, which is why every change of the entries puts both cursors back and forgets the term.

`Sound` collects all this.  Every way to change a history preserves it, so it holds of whatever an
empty history is made into.
-/

namespace PromptLine

namespace History

/-! ## The invariant -/

/-- What holds of a history at all times. -/
structure Sound (h : History) : Prop where
  size : h.size ≤ h.limit
  nonblank : ∀ line ∈ h.entries, isBlankLine line = false
  distinct : h.entries.IsChain (· ≠ ·)
  fetchCursor : h.fetchCursor ≤ h.size
  searchCursor : h.searchCursor ≤ h.size
  /-- The term found last is still where it was found. -/
  hit : ∀ term, h.lastTerm = some term →
    ∃ line, h.get? h.searchCursor = some line ∧ term <:+: line

variable {h : History}

theorem sound_empty (limit : Nat) : (empty limit).Sound :=
  ⟨Nat.zero_le _, List.forall_mem_nil _, .nil, Nat.le_refl 0, Nat.le_refl 0, nofun⟩

/-- A term that is remembered was found on an entry. -/
theorem Sound.searchCursor_lt (hsound : h.Sound) {term : Text} (hterm : h.lastTerm = some term) :
    h.searchCursor < h.size := by
  obtain ⟨line, hline, -⟩ := hsound.hit term hterm
  exact (List.getElem?_eq_some_iff.mp hline).1

/-- **A search looks at entries only**, wherever it goes on from. -/
theorem Sound.lt_size_of_mem_candidates (hsound : h.Sound) {term : Text} {index : Nat}
    (hindex : index ∈ h.candidates term) : index < h.size := by
  have hcursor := hsound.searchCursor
  unfold candidates at hindex
  dsimp only at hindex
  cases hdirection : h.direction with
  | reverse =>
    rw [hdirection, List.mem_reverse, List.mem_range] at hindex
    split at hindex <;> omega
  | forward =>
    rw [hdirection, List.mem_range'_1] at hindex
    split at hindex <;> omega

/-! ## The cursors -/

/-- Where a search starts anew nothing is remembered. -/
theorem Sound.restartSearch (hsound : h.Sound) : h.restartSearch.Sound := by
  refine ⟨hsound.size, hsound.nonblank, hsound.distinct, hsound.fetchCursor, ?_,
    fun term hterm => absurd hterm (Option.some_ne_none term).symm⟩
  have hstart : h.restartSearch.searchCursor = h.size ∨ h.restartSearch.searchCursor = 0 := by
    rw [History.restartSearch]
    cases h.direction with
    | reverse => exact .inl rfl
    | forward => exact .inr rfl
  change h.restartSearch.searchCursor ≤ h.size
  omega

theorem Sound.setDirection (hsound : h.Sound) (direction : Direction) :
    (h.setDirection direction).Sound := by
  rw [History.setDirection]
  split
  · exact hsound
  · -- the cursor may be at the wrong end of the new direction until the search starts anew
    have hturned : ({ h with direction := direction, lastTerm := none } : History).Sound :=
      ⟨hsound.size, hsound.nonblank, hsound.distinct, hsound.fetchCursor, hsound.searchCursor,
        fun term hterm => absurd hterm (Option.some_ne_none term).symm⟩
    exact hturned.restartSearch

/-- The fetch cursor can go anywhere up to the draft. -/
theorem Sound.fetch (hsound : h.Sound) {index : Nat} (hindex : index ≤ h.size) :
    ({ h with fetchCursor := index } : History).Sound :=
  ⟨hsound.size, hsound.nonblank, hsound.distinct, hindex, hsound.searchCursor, hsound.hit⟩

theorem Sound.previous (hsound : h.Sound) : h.previous.1.Sound := by
  have hcursor := hsound.fetchCursor
  rw [History.previous]
  split
  · exact hsound
  · exact hsound.fetch (Nat.le_trans (Nat.sub_le _ _) hcursor)

theorem Sound.next (hsound : h.Sound) : h.next.1.Sound := by
  have hcursor := hsound.fetchCursor
  refine hsound.fetch ?_
  split <;> omega

/-- A search that hits remembers the term where it was found. -/
theorem Sound.search (hsound : h.Sound) (term : Text) : (h.search term).1.Sound := by
  rcases hsearch : h.search term with ⟨after, line?⟩
  rw [History.search] at hsearch
  split at hsearch
  · cases hsearch
    exact hsound
  · next index hfound =>
    cases hsearch
    have hlt := hsound.lt_size_of_mem_candidates (List.mem_of_find?_eq_some hfound)
    have hholds := List.find?_some hfound
    have hline : h.get? index = some h.entries[index] := List.getElem?_eq_getElem hlt
    rw [holds, hline] at hholds
    refine ⟨hsound.size, hsound.nonblank, hsound.distinct, hsound.fetchCursor, Nat.le_of_lt hlt, ?_⟩
    rintro _ ⟨⟩
    exact ⟨h.entries[index], hline, Text.contains_iff_infix.mp hholds⟩

/-! ## The entries -/

/-- With both cursors put back, a history is as sound as its entries are. -/
theorem sound_of_entries (hsize : h.size ≤ h.limit)
    (hnonblank : ∀ line ∈ h.entries, isBlankLine line = false)
    (hdistinct : h.entries.IsChain (· ≠ ·)) : h.toDraft.restartSearch.Sound := by
  have hrest : ({ h with fetchCursor := h.size, searchCursor := 0, lastTerm := none } :
      History).Sound :=
    ⟨hsize, hnonblank, hdistinct, Nat.le_refl _, Nat.zero_le _, nofun⟩
  exact hrest.restartSearch

/-- The lines that a history does not take. -/
def Declines (h : History) (line : Text) : Prop :=
  isBlankLine line = true ∨ h.entries.getLast? = some line ∨ h.limit = 0

instance (h : History) : DecidablePred h.Declines := fun line =>
  inferInstanceAs (Decidable (isBlankLine line = true ∨ _ ∨ _))

theorem entries_push_of_declines {line : Text} (hline : h.Declines line) :
    (h.push line).entries = h.entries :=
  if_pos hline

/-- A line that is taken comes last, and the oldest entries go as far as there are too many. -/
theorem entries_push (hsize : h.size ≤ h.limit) {line : Text} (hline : ¬h.Declines line) :
    (h.push line).entries = h.entries.drop (h.size + 1 - h.limit) ++ [line] := by
  have hpush : (h.push line).entries =
      (if h.size = h.limit then h.entries.tail else h.entries) ++ [line] := if_neg hline
  have hpos : h.limit ≠ 0 := fun hzero => hline (.inr (.inr hzero))
  rw [hpush]
  split
  · next hfull =>
    have hone : h.size + 1 - h.limit = 1 := by omega
    rw [hone, List.drop_one]
  · next hroom =>
    have hnone : h.size + 1 - h.limit = 0 := by omega
    rw [hnone, List.drop_zero]

/-- A line that is taken is neither blank nor equal to the newest entry. -/
theorem Sound.push (hsound : h.Sound) (line : Text) : (h.push line).Sound := by
  have hentries : ∀ {kept : List Text}, (h.push line).entries = kept →
      (h.push line) = ({ h with entries := kept } : History).toDraft.restartSearch := by
    rintro _ rfl
    rfl
  by_cases hline : h.Declines line
  · rw [hentries (entries_push_of_declines hline)]
    exact sound_of_entries hsound.size hsound.nonblank hsound.distinct
  · rw [hentries (entries_push hsound.size hline)]
    have hsize := hsound.size
    have hpos : h.limit ≠ 0 := fun hzero => hline (.inr (.inr hzero))
    refine sound_of_entries ?_ ?_ ?_
    · change (_ ++ [line]).length ≤ h.limit
      rw [List.length_append, List.length_drop, List.length_singleton]
      change h.size - _ + 1 ≤ h.limit
      omega
    · intro entry hentry
      rcases List.mem_append.mp hentry with hold | hnew
      · exact hsound.nonblank entry (List.mem_of_mem_drop hold)
      · rw [List.mem_singleton.mp hnew]
        exact Bool.eq_false_iff.mpr fun hblank => hline (.inl hblank)
    · refine (hsound.distinct.drop _).append (.singleton line) ?_
      rintro newest hnewest _ ⟨⟩ rfl
      rw [List.getLast?_drop] at hnewest
      split at hnewest
      · cases hnewest
      · exact hline (.inr (.inl hnewest))

/-- A smaller limit takes the oldest entries away. -/
theorem Sound.setLimit (hsound : h.Sound) (limit : Nat) : (h.setLimit limit).Sound := by
  refine sound_of_entries ?_ ?_ (hsound.distinct.drop _)
  · change (h.entries.drop (h.size - limit)).length ≤ limit
    rw [List.length_drop]
    change h.size - (h.size - limit) ≤ limit
    omega
  · exact fun line hline => hsound.nonblank line (List.mem_of_mem_drop hline)

theorem sound_clear (h : History) : h.clear.Sound :=
  sound_of_entries (Nat.zero_le _) (List.forall_mem_nil _) .nil

/-! ## All operations -/

/-- The ways to change a history. -/
inductive Operation
  | push (line : Text)
  | setLimit (limit : Nat)
  | clear
  | setDraft (line : Text)
  | previous
  | next
  | first
  | last
  | setDirection (direction : Direction)
  | restartSearch
  | search (term : Text)
  deriving DecidableEq, Repr

/-- The history after an operation. -/
def perform (h : History) : Operation → History
  | .push line => h.push line
  | .setLimit limit => h.setLimit limit
  | .clear => h.clear
  | .setDraft line => h.setDraft line
  | .previous => h.previous.1
  | .next => h.next.1
  | .first => h.first.1
  | .last => h.last.1
  | .setDirection direction => h.setDirection direction
  | .restartSearch => h.restartSearch
  | .search term => (h.search term).1

/-- **Every operation preserves what holds of a history.** -/
theorem Sound.perform (hsound : h.Sound) (operation : Operation) : (h.perform operation).Sound := by
  cases operation with
  | push line => exact hsound.push line
  | setLimit limit => exact hsound.setLimit limit
  | clear => exact h.sound_clear
  | setDraft line =>
    exact ⟨hsound.size, hsound.nonblank, hsound.distinct, hsound.fetchCursor,
      hsound.searchCursor, hsound.hit⟩
  | previous => exact hsound.previous
  | next => exact hsound.next
  | first => exact hsound.fetch (Nat.zero_le _)
  | last => exact hsound.fetch (Nat.le_refl _)
  | setDirection direction => exact hsound.setDirection direction
  | restartSearch => exact hsound.restartSearch
  | search term => exact hsound.search term

theorem Sound.foldl_perform (hsound : h.Sound) (operations : List Operation) :
    (operations.foldl History.perform h).Sound := by
  induction operations generalizing h with
  | nil => exact hsound
  | cons operation rest ih => exact ih (hsound.perform operation)

/-- **What holds of a history at all times.**  Whatever is done to an empty history, it stays sound,
and a search looks at entries only.  A term that is remembered has the search cursor on an entry.
Whatever line comes next, the history declines it and keeps its entries, or puts it behind them and
gives up the oldest one at most, and that only if it is full. -/
theorem sound_foldl_perform (limit : Nat) (operations : List Operation) :
    let h := operations.foldl perform (empty limit)
    h.Sound ∧ (∀ term, h.lastTerm = some term → h.searchCursor < h.size) ∧
      (∀ term, ∀ index ∈ h.candidates term, index < h.size) ∧
        ∀ line, (h.Declines line → (h.push line).entries = h.entries) ∧
          (¬h.Declines line → ∃ evicted kept, h.entries = evicted ++ kept ∧
            evicted.length ≤ 1 ∧ (evicted ≠ [] → h.size = h.limit) ∧
              (h.push line).entries = kept ++ [line]) := by
  intro h
  have hsound : h.Sound := (sound_empty limit).foldl_perform operations
  refine ⟨hsound, fun _ => hsound.searchCursor_lt, fun _ _ => hsound.lt_size_of_mem_candidates,
    fun line => ⟨entries_push_of_declines, fun hline => ?_⟩⟩
  have hsize := hsound.size
  have hpos : h.limit ≠ 0 := fun hzero => hline (.inr (.inr hzero))
  refine ⟨h.entries.take (h.size + 1 - h.limit), h.entries.drop (h.size + 1 - h.limit),
    (List.take_append_drop _ _).symm, ?_, ?_, entries_push hsize hline⟩
  · refine Nat.le_trans (List.length_take_le _ _) ?_
    omega
  · intro hne
    have hsome : h.size + 1 - h.limit ≠ 0 := fun hzero => hne (by rw [hzero, List.take_zero])
    omega

end History

end PromptLine
