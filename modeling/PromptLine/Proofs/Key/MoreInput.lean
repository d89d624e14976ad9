import PromptLine.Key.Input
import PromptLine.Proofs.Key.Resolution

/-!
# Keystrokes and the input that comes after them

A keystroke is taken as soon as it is ready, and what arrives later cannot call it back.  So it
matters where input is cut: an escape followed by `[A` is an arrow key, but an escape that is taken
before the rest arrives is a key of its own.

This can only happen to input that begins with a bound sequence and is itself the beginning of a
longer one.  Input without a rest of that kind is called *settled* here, and a keystroke that is
ready in settled input is ready in any longer input, too.
-/

namespace PromptLine

namespace Trie

variable {strokes : List Stroke}

/-- The text is the beginning of a bound sequence, and not all of it. -/
def Begins (strokes : List Stroke) (text : Text) : Prop :=
  ∃ stroke ∈ strokes, text <+: stroke.sequence ∧ text ≠ stroke.sequence

/-- No rest of the text begins with one bound sequence and could still become another one. -/
def Settled (strokes : List Stroke) (text : Text) : Prop :=
  ∀ rest, rest <:+ text → Begins strokes rest →
    ∀ stroke ∈ strokes, stroke.sequence <+: rest → stroke.sequence = []

theorem Settled.of_suffix {text rest : Text} (h : Settled strokes text) (hrest : rest <:+ text) :
    Settled strokes rest :=
  fun shorter hshorter => h shorter (hshorter.trans hrest)

/-- Fewer bindings leave less to wait for. -/
theorem Settled.of_subset {few : List Stroke} {text : Text} (h : Settled strokes text)
    (hfew : ∀ stroke ∈ few, stroke ∈ strokes) : Settled few text := by
  rintro rest hrest ⟨longer, hmem, hbegins⟩ stroke hstroke
  exact h rest hrest ⟨longer, hfew longer hmem, hbegins⟩ stroke (hfew stroke hstroke)

/-! ## Resolving longer input -/

/-- A ready keystroke is what the input starts with. -/
theorem Resolves.starts {input : Text} {resolution : Resolution} {stroke : Stroke}
    (h : Resolves strokes input resolution) (hready : resolution.stroke? = some stroke) :
    stroke.sequence ≠ [] ∧ stroke.sequence <+: input := by
  cases h with
  | nothing => cases hready
  | matched hne hstarts =>
    cases hready
    exact ⟨hne, hstarts⟩
  | incomplete => cases hready
  | unbound =>
    cases hready
    exact ⟨List.cons_ne_nil _ _, List.prefix_append [_] _⟩

/-- A match stays the longest one if the input cannot become a longer bound sequence. -/
theorem Resolves.append_of_matched {input : Text} {stroke : Stroke}
    (h : Resolves strokes input (.matched stroke)) (hends : ¬Begins strokes input) (ys : Text) :
    Resolves strokes (input ++ ys) (.matched stroke) := by
  cases h with
  | matched hne hstarts hlongest hlatest =>
    refine .matched hne (hstarts.trans (List.prefix_append input ys)) ?_ hlatest
    intro other hother h
    rcases List.prefix_or_prefix_of_prefix h (List.prefix_append input ys) with hin | hout
    · exact hlongest other hother hin
    · have hall : input = other.sequence := by
        by_contra hproper
        exact hends ⟨other, hother, hout, hproper⟩
      exact hlongest other hother (hall ▸ List.prefix_rfl)

/-- A code point that nothing begins with stands alone, whatever follows. -/
theorem Resolves.append_of_unbound {input : Text} {stroke : Stroke}
    (h : Resolves strokes input (.unbound stroke)) (ys : Text) :
    Resolves strokes (input ++ ys) (.unbound stroke) := by
  cases h with
  | @unbound c rest hunmatched hlost =>
    have hnothing : ∀ other ∈ strokes, ¬c :: rest <+: other.sequence := by
      intro other hother hbegins
      have hall := hlost other hother hbegins
      have hnil := hunmatched other hother (hall ▸ List.prefix_rfl)
      rw [hnil] at hall
      cases hall
    refine .unbound ?_ ?_
    · intro other hother h
      rcases List.prefix_or_prefix_of_prefix h (List.prefix_append (c :: rest) ys) with hin | hout
      · exact hunmatched other hother hin
      · exact absurd hout (hnothing other hother)
    · intro other hother h
      exact absurd ((List.prefix_append (c :: rest) ys).trans h) (hnothing other hother)

/-- **A ready keystroke stays ready.**  In settled input it is the same with and without the input
that follows. -/
theorem resolve_append {input : Text} {stroke : Stroke} (hsettled : Settled strokes input)
    (hready : ((ofList strokes).resolve input).stroke? = some stroke) (ys : Text) :
    (ofList strokes).resolve (input ++ ys) = (ofList strokes).resolve input := by
  have hinput := resolves_resolve strokes input
  have hlonger := resolves_resolve strokes (input ++ ys)
  cases hresolution : (ofList strokes).resolve input with
  | nothing => rw [hresolution] at hready; cases hready
  | incomplete => rw [hresolution] at hready; cases hready
  | matched found =>
    rw [hresolution] at hinput
    obtain ⟨hne, hstarts⟩ := hinput.starts rfl
    have hends : ¬Begins strokes input := by
      intro hbegins
      cases hinput with
      | matched _ _ _ hlatest =>
        exact hne (hsettled input (List.suffix_refl input) hbegins found
          (sequence_of_latest? hlatest).1 hstarts)
    exact hlonger.unique (hinput.append_of_matched hends ys)
  | unbound c =>
    rw [hresolution] at hinput
    exact hlonger.unique (hinput.append_of_unbound ys)

end Trie

namespace KeyInput

variable {k after : KeyInput} {strokes : List Stroke} {stroke : Stroke}

/-- What is left after a keystroke is a rest of what was there. -/
theorem pending_suffix_of_next? (h : k.next? = some (stroke, after)) :
    after.pending <:+ k.pending := by
  obtain ⟨-, -, rfl⟩ := next?_eq_some h
  exact List.drop_suffix _ _

/-- Nothing can be taken from no input. -/
theorem next?_of_pending_eq_nil (h : k.pending = []) : k.next? = none := by
  rw [next?, peek?, resolve, h]
  rfl

/-- Taking a keystroke makes the input shorter. -/
theorem length_pending_lt_of_next? (h : k.next? = some (stroke, after)) :
    after.pending.length < k.pending.length := by
  have hne : k.pending ≠ [] := by
    intro hnil
    rw [next?_of_pending_eq_nil hnil] at h
    cases h
  obtain ⟨hready, hpos, rfl⟩ := next?_eq_some h
  have hinput := List.length_pos_iff.mpr hne
  rw [List.length_drop]
  omega

/-- The next keystroke, by the rule by which input is cut. -/
theorem next?_of_resolves {resolution : Resolution} (htrie : k.trie = .ofList strokes)
    (h : Trie.Resolves strokes k.pending resolution) (hready : resolution.stroke? = some stroke) :
    k.next? = some (stroke, { k with pending := k.pending.drop stroke.length }) := by
  have hne := (h.starts hready).1
  have hpeek : k.peek? = some stroke := by
    rw [peek?, resolve, htrie, (Trie.resolves_resolve strokes k.pending).unique h, hready]
  rw [next?, hpeek]
  exact if_neg (mt List.length_eq_zero_iff.mp hne)

/-- A bound sequence is taken at once, whatever could follow. -/
theorem next?_of_mem (htrie : k.trie = .ofList strokes) (hne : k.pending ≠ [])
    (hmem : k.pending ∈ strokes.map Stroke.sequence) :
    ∃ stroke, stroke.sequence = k.pending ∧ k.next? = some (stroke, { k with pending := [] }) := by
  obtain ⟨stroke, hmatched, hsequence⟩ := Trie.resolve_eq_matched_iff.mpr ⟨hne, hmem⟩
  have hresolves := Trie.resolves_resolve strokes k.pending
  have hnext := next?_of_resolves htrie (hmatched ▸ hresolves) rfl
  refine ⟨stroke, hsequence, hnext.trans ?_⟩
  rw [Stroke.length, hsequence, List.drop_length]

/-- A code point that no bound sequence begins with is a key by itself. -/
theorem next?_of_head_ne (htrie : k.trie = .ofList strokes) {c : Char} {rest : Text}
    (hpending : k.pending = c :: rest)
    (hhead : ∀ stroke ∈ strokes, stroke.sequence.head? ≠ some c) :
    k.next? = some (.ofChar c, { k with pending := rest }) := by
  have hunbound : Trie.Resolves strokes (c :: rest) (.unbound (.ofChar c)) := by
    refine .unbound (fun stroke hmem hstarts => ?_) fun stroke hmem hbegins => ?_
    · rcases List.prefix_cons_iff.mp hstarts with hnil | ⟨tail, htail, -⟩
      · exact hnil
      · exact absurd (htail ▸ List.head?_cons) (hhead stroke hmem)
    · obtain ⟨tail, htail⟩ := hbegins
      exact absurd (htail ▸ List.head?_cons) (hhead stroke hmem)
  rw [next?_of_resolves htrie (hpending ▸ hunbound) rfl, hpending]
  rfl

/-- **Taking a keystroke and appending input can be exchanged**, if the input at hand is
settled. -/
theorem next?_feed (htrie : k.trie = .ofList strokes) (hsettled : Trie.Settled strokes k.pending)
    (h : k.next? = some (stroke, after)) (ys : Text) :
    (k.feed ys).next? = some (stroke, after.feed ys) := by
  obtain ⟨hready, hpos, rfl⟩ := next?_eq_some h
  rw [peek?, resolve, htrie] at hready
  have hlength : stroke.length ≤ k.pending.length :=
    ((Trie.resolves_resolve strokes k.pending).starts hready).2.length_le
  have hstays : (k.feed ys).peek? = some stroke := by
    rw [peek?, resolve, pending_feed]
    change (k.trie.resolve (k.pending ++ ys)).stroke? = some stroke
    rw [htrie, Trie.resolve_append hsettled hready, hready]
  rw [next?, hstays]
  dsimp only
  rw [if_neg (Nat.pos_iff_ne_zero.mp hpos), pending_feed,
    List.drop_append_of_le_length hlength]
  rfl

/-- Input from which nothing can be taken is empty, or the beginning of a bound sequence while it
begins with none itself. -/
theorem pending_of_next?_eq_none (htrie : k.trie = .ofList strokes) (h : k.next? = none) :
    k.pending = [] ∨ (Trie.Begins strokes k.pending ∧
      ∀ stroke ∈ strokes, stroke.sequence <+: k.pending → stroke.sequence = []) := by
  obtain ⟨pending, trie⟩ := k
  obtain rfl : trie = .ofList strokes := htrie
  have hresolves := Trie.resolves_resolve strokes pending
  have hwaits : ((Trie.ofList strokes).resolve pending).stroke? = none := by
    rw [next?, peek?, resolve] at h
    split at h
    · next hnone => exact hnone
    · next ready hready =>
      have hne := (hresolves.starts hready).1
      rw [if_neg (show ready.length ≠ 0 from mt List.length_eq_zero_iff.mp hne)] at h
      cases h
  generalize (Trie.ofList strokes).resolve pending = resolution at hresolves hwaits
  cases hresolves with
  | nothing => exact .inl rfl
  | matched => cases hwaits
  | unbound => cases hwaits
  | incomplete hne hunmatched hbound hbegins hproper =>
    exact .inr ⟨⟨_, hbound, hbegins, hproper⟩, hunmatched⟩

end KeyInput

end PromptLine
