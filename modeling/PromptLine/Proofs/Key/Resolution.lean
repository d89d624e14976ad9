import PromptLine.Proofs.Key.TrieContent

/-!
# A trie cuts input like a scan of all bindings

The rule by which input is cut is about the list of bound keystrokes and needs no tree: the longest
bound sequence that the input starts with wins, in the form in which it was bound last; without one,
the beginning of a bound sequence waits; without that, the first code point stands alone.
`Resolves` states the rule.  The walk along the tree follows it (`resolves_resolve`), and the rule
leaves no choice (`Resolves.unique`), so that walk and rule are the same.
-/

namespace PromptLine

namespace Trie

/-- The rule by which input is cut, given the keystrokes in the order in which they were bound. -/
inductive Resolves (strokes : List Stroke) : Text → Resolution → Prop
  | nothing : Resolves strokes [] .nothing
  | matched {input : Text} {stroke : Stroke} (nonempty : stroke.sequence ≠ [])
      (starts : stroke.sequence <+: input)
      (longest : ∀ other ∈ strokes, other.sequence <+: input → other.length ≤ stroke.length)
      (latest : latest? strokes stroke.sequence = some stroke) :
      Resolves strokes input (.matched stroke)
  | incomplete {input : Text} {longer : Stroke} (nonempty : input ≠ [])
      (unmatched : ∀ stroke ∈ strokes, stroke.sequence <+: input → stroke.sequence = [])
      (bound : longer ∈ strokes) (begins : input <+: longer.sequence)
      (proper : input ≠ longer.sequence) : Resolves strokes input .incomplete
  | unbound {c : Char} {rest : Text}
      (unmatched : ∀ stroke ∈ strokes, stroke.sequence <+: c :: rest → stroke.sequence = [])
      (lost : ∀ stroke ∈ strokes, c :: rest <+: stroke.sequence → c :: rest = stroke.sequence) :
      Resolves strokes (c :: rest) (.unbound (.ofChar c))

/-- The branches hold the sequences that are not empty. -/
theorem get?_branches_ofList (strokes : List Stroke) {s : Text} (hs : s ≠ []) :
    (ofList strokes).branches.get? s = latest? strokes s := by
  rw [← get?_ofList]
  cases s with
  | nil => exact absurd rfl hs
  | cons c s => rfl

/-- A sequence that the branches do not hold is empty, or not bound. -/
theorem sequence_eq_nil_of_get?_branches {strokes : List Stroke} {stroke : Stroke}
    (hmem : stroke ∈ strokes) (h : (ofList strokes).branches.get? stroke.sequence = none) :
    stroke.sequence = [] := by
  by_contra hne
  rw [get?_branches_ofList strokes hne, latest?_eq_none_iff] at h
  exact h stroke hmem rfl

/-- **The walk follows the rule.** -/
theorem resolves_resolve (strokes : List Stroke) (input : Text) :
    Resolves strokes input ((ofList strokes).resolve input) := by
  cases input with
  | nil => exact .nothing
  | cons c rest =>
    rw [resolve]
    cases hlongest : (ofList strokes).branches.longest? (c :: rest) with
    | some stroke =>
      obtain ⟨s, hprefix, hget, hnone⟩ := Branches.get?_of_longest? hlongest
      have hs := Branches.ne_nil_of_get? hget
      rw [get?_branches_ofList strokes hs] at hget
      obtain ⟨-, rfl⟩ := sequence_of_latest? hget
      refine .matched hs hprefix ?_ hget
      intro other hother hstarts
      by_contra hlt
      have hnil := sequence_eq_nil_of_get?_branches hother (hnone _ hstarts (Nat.lt_of_not_le hlt))
      rw [Stroke.length, hnil] at hlt
      exact hlt (Nat.zero_le _)
    | none =>
      rw [Branches.longest?_eq_none_iff] at hlongest
      have hunmatched : ∀ stroke ∈ strokes, stroke.sequence <+: c :: rest →
          stroke.sequence = [] := by
        intro stroke hmem hstarts
        exact sequence_eq_nil_of_get?_branches hmem (hlongest _ hstarts)
      dsimp only
      split
      · next hcontinues =>
        obtain ⟨longer, hmem, hbegins, hproper⟩ := (continues_ofList strokes _).mp hcontinues
        exact .incomplete (List.cons_ne_nil c rest) hunmatched hmem hbegins hproper
      · next hstops =>
        refine .unbound hunmatched ?_
        intro stroke hmem hbegins
        by_contra hproper
        exact hstops ((continues_ofList strokes _).mpr ⟨stroke, hmem, hbegins, hproper⟩)

/-- Two longest matches are the same keystroke. -/
theorem eq_of_longest {strokes : List Stroke} {input : Text} {a b : Stroke}
    (hA : a.sequence <+: input) (hB : b.sequence <+: input)
    (hlongestA : ∀ other ∈ strokes, other.sequence <+: input → other.length ≤ a.length)
    (hlongestB : ∀ other ∈ strokes, other.sequence <+: input → other.length ≤ b.length)
    (hlatestA : latest? strokes a.sequence = some a)
    (hlatestB : latest? strokes b.sequence = some b) : a = b := by
  have hlength : a.length = b.length :=
    Nat.le_antisymm (hlongestB a (sequence_of_latest? hlatestA).1 hA)
      (hlongestA b (sequence_of_latest? hlatestB).1 hB)
  have hsequence : a.sequence = b.sequence :=
    (List.prefix_of_prefix_length_le hA hB (Nat.le_of_eq hlength)).eq_of_length hlength
  rw [hsequence, hlatestB] at hlatestA
  exact (Option.some.inj hlatestA).symm

/-- Where nothing matches there is no match. -/
theorem not_matched_of_unmatched {strokes : List Stroke} {input : Text} {stroke : Stroke}
    (hunmatched : ∀ stroke ∈ strokes, stroke.sequence <+: input → stroke.sequence = [])
    (hne : stroke.sequence ≠ []) (hstarts : stroke.sequence <+: input) :
    latest? strokes stroke.sequence ≠ some stroke := fun hlatest =>
  hne (hunmatched stroke (sequence_of_latest? hlatest).1 hstarts)

/-- **The rule leaves no choice.** -/
theorem Resolves.unique {strokes : List Stroke} {input : Text} {a b : Resolution}
    (ha : Resolves strokes input a) (hb : Resolves strokes input b) : a = b := by
  cases ha with
  | nothing =>
    cases hb with
    | nothing => rfl
    | matched hne hstarts => exact absurd (List.prefix_nil.mp hstarts) hne
    | incomplete hne => exact absurd rfl hne
  | matched hne hstarts hlongest hlatest =>
    cases hb with
    | nothing => exact absurd (List.prefix_nil.mp hstarts) hne
    | matched _ hstarts' hlongest' hlatest' =>
      rw [eq_of_longest hstarts hstarts' hlongest hlongest' hlatest hlatest']
    | incomplete _ hunmatched =>
      exact absurd hlatest (not_matched_of_unmatched hunmatched hne hstarts)
    | unbound hunmatched => exact absurd hlatest (not_matched_of_unmatched hunmatched hne hstarts)
  | incomplete hnonempty hunmatched hbound hbegins hproper =>
    cases hb with
    | nothing => exact absurd rfl hnonempty
    | matched hne hstarts _ hlatest =>
      exact absurd hlatest (not_matched_of_unmatched hunmatched hne hstarts)
    | incomplete => rfl
    | unbound _ hlost => exact absurd (hlost _ hbound hbegins) hproper
  | unbound hunmatched hlost =>
    cases hb with
    | matched hne hstarts _ hlatest =>
      exact absurd hlatest (not_matched_of_unmatched hunmatched hne hstarts)
    | incomplete _ _ hbound hbegins hproper => exact absurd (hlost _ hbound hbegins) hproper
    | unbound => rfl

/-- **A trie cuts input as a scan of all bindings would.**  It resolves input by the rule, and knows
how many sequences are bound and how long the longest of them is. -/
theorem resolve_ofList (strokes : List Stroke) :
    (∀ (input : Text) (resolution : Resolution),
      (ofList strokes).resolve input = resolution ↔ Resolves strokes input resolution) ∧
    (ofList strokes).count = (strokes.map Stroke.sequence).toFinset.card ∧
    (ofList strokes).maxLength = (strokes.map Stroke.length).foldl max 0 := by
  refine ⟨?_, count_ofList strokes, maxLength_ofList strokes⟩
  intro input resolution
  constructor
  · rintro rfl
    exact resolves_resolve strokes input
  · intro h
    exact (resolves_resolve strokes input).unique h

/-- A bound sequence is resolved to its own keystroke: nothing longer can match it. -/
theorem resolve_eq_matched_iff {strokes : List Stroke} {s : Text} :
    (∃ stroke, (ofList strokes).resolve s = .matched stroke ∧ stroke.sequence = s) ↔
      s ≠ [] ∧ s ∈ strokes.map Stroke.sequence := by
  constructor
  · rintro ⟨stroke, hmatched, hsequence⟩
    have hresolves := resolves_resolve strokes s
    rw [hmatched] at hresolves
    cases hresolves with
    | matched hne _ _ hlatest =>
      rw [← hsequence]
      exact ⟨hne, List.mem_map_of_mem (sequence_of_latest? hlatest).1⟩
  · rintro ⟨hne, hmem⟩
    obtain ⟨stroke, hlatest⟩ := Option.isSome_iff_exists.mp (isSome_latest?_iff.mpr hmem)
    obtain ⟨-, rfl⟩ := sequence_of_latest? hlatest
    have hmatched : Resolves strokes stroke.sequence (.matched stroke) :=
      .matched hne (List.prefix_refl _) (fun _ _ hstarts => hstarts.length_le) hlatest
    exact ⟨stroke, (resolves_resolve strokes _).unique hmatched, rfl⟩

end Trie

end PromptLine
