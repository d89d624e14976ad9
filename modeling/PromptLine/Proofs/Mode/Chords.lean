import PromptLine.Proofs.Key.FiniteMap
import PromptLine.Proofs.Mode.TextEntry

/-!
# Chords of the plain dispatcher

A character typed with the meta key arrives as an escape and the character.  Two mechanisms make a
chord of the two.  If they are cut from the input together, the trie finds the sequence of both.  If
the escape is taken first, it is a key by itself: it arms the leader, and the character that comes
next is looked up with the escape in front.

Both look up the same sequence in the same table, and the plain table is made so that nothing else
can come in between.  Escape is bound, and is the only key that is the leader; and every sequence
that does not begin with an escape is one code point long, so a code point behind the leader is a
key at once.  Chords that are added change nothing of this.
-/

namespace PromptLine

/-- The bound sequences, as the trie has them. -/
theorem Bindings.mem_map_sequence_iff {α : Type} {b : Bindings α} {sequence : Text} :
    sequence ∈ b.strokes.map Stroke.sequence ↔ (b.value? sequence).isSome = true := by
  rw [map_sequence_strokes, isSome_value?_iff]

namespace Emacs

/-! ## Tables with chords -/

/-- The usual table, and what can be made of it by binding chords: an escape and a code point. -/
inductive Chorded : Keymap Command → Prop
  | usual : Chorded (.ofBindings defaults)
  | add {table after : Keymap Command} {c : Char} {command : Command} (chorded : Chorded table)
      (plain : command ≠ .metaPrefix) (bound : table.bindSequence [escape, c] command = .ok after) :
      Chorded after

/-- What a table with chords is like. -/
structure Leads (table : Keymap Command) : Prop where
  frozen : table = .ofBindings table.bindings
  /-- Escape is the leader, and nothing else is. -/
  leader : ∀ sequence, table.bindings.value? sequence = some .metaPrefix ↔ sequence = [escape]
  /-- A sequence that does not begin with an escape is one code point. -/
  short : ∀ sequence ∈ table.bindings.sequences, sequence.head? ≠ some escape →
    sequence.length = 1

theorem leads_usual : Leads (.ofBindings defaults) where
  frozen := rfl
  leader := by
    intro sequence
    have hescape : defaults.value? [escape] = some .metaPrefix := by rfl
    have honly : ∀ binding ∈ defaults.entries, binding.2 = .metaPrefix →
        binding.1.sequence = [escape] := by
      decide
    constructor
    · intro hvalue
      obtain ⟨bound, hmem, hsequence⟩ := Bindings.exists_of_get? hvalue
      exact hsequence.symm.trans (honly _ hmem rfl)
    · rintro rfl
      exact hescape
  short := by decide

/-- Binding a chord leads to such a table again. -/
theorem Leads.bindSequence {table after : Keymap Command} (h : Leads table) {c : Char}
    {command : Command} (hplain : command ≠ .metaPrefix)
    (hbound : table.bindSequence [escape, c] command = .ok after) : Leads after := by
  obtain ⟨b, hbind, rfl⟩ := exists_ok_of_map hbound
  obtain ⟨hfree, rfl⟩ := Bindings.eq_of_bind hbind
  refine ⟨rfl, fun sequence => ?_, fun sequence hmem hhead => ?_⟩
  · rw [Keymap.bindings_ofBindings, Bindings.value?_append hfree, Stroke.sequence_ofSequence]
    by_cases hsame : sequence = [escape, c]
    · rw [hsame, Function.update_self]
      simp [hplain]
    · rw [Function.update_of_ne hsame]
      exact h.leader sequence
  · rw [Keymap.bindings_ofBindings, Bindings.sequences, List.map_append, List.mem_append] at hmem
    rcases hmem with hbefore | hlast
    · exact h.short sequence hbefore hhead
    · rw [List.mem_singleton.mp hlast] at hhead
      exact absurd rfl hhead

theorem Chorded.leads {table : Keymap Command} (h : Chorded table) : Leads table := by
  induction h with
  | usual => exact leads_usual
  | add _ plain bound ih => exact ih.bindSequence plain bound

/-! ## How an escape and a code point are cut -/

section Cutting

variable {table : Keymap Command} (h : Leads table) {k : KeyInput}

include h

theorem Leads.trie_eq : table.trie = .ofList table.bindings.strokes := by
  rw [h.frozen]
  rfl

theorem Leads.escape_mem : [escape] ∈ table.bindings.strokes.map Stroke.sequence := by
  rw [Bindings.mem_map_sequence_iff, (h.leader [escape]).mpr rfl]
  rfl

/-- An escape is a key, whatever could follow. -/
theorem Leads.next?_escape (htrie : k.trie = table.trie) (hpending : k.pending = [escape]) :
    ∃ stroke, stroke.sequence = [escape] ∧ k.next? = some (stroke, { k with pending := [] }) := by
  have hmem := h.escape_mem
  rw [← hpending] at hmem ⊢
  exact KeyInput.next?_of_mem (htrie.trans h.trie_eq) (hpending ▸ List.cons_ne_nil _ _) hmem

/-- So is every code point by itself. -/
theorem Leads.next?_single (htrie : k.trie = table.trie) {c : Char} (hpending : k.pending = [c]) :
    ∃ stroke, stroke.sequence = [c] ∧ k.next? = some (stroke, { k with pending := [] }) := by
  have hstrokes := htrie.trans h.trie_eq
  by_cases hmem : [c] ∈ table.bindings.strokes.map Stroke.sequence
  · rw [← hpending] at hmem ⊢
    exact KeyInput.next?_of_mem hstrokes (hpending ▸ List.cons_ne_nil _ _) hmem
  · refine ⟨.ofChar c, rfl, KeyInput.next?_of_head_ne hstrokes hpending ?_⟩
    intro stroke hstroke hhead
    have hescape : stroke.sequence.head? ≠ some escape := by
      intro hsame
      obtain rfl : c = escape := Option.some.inj (hhead.symm.trans hsame)
      exact hmem h.escape_mem
    -- a bound sequence with this head is no longer than it
    have hlength := h.short stroke.sequence
      (table.bindings.map_sequence_strokes ▸ List.mem_map_of_mem hstroke) hescape
    obtain ⟨first, hfirst⟩ := List.length_eq_one_iff.mp hlength
    rw [hfirst, List.head?_cons, Option.some.injEq] at hhead
    exact hmem (hhead ▸ hfirst ▸ List.mem_map_of_mem hstroke)

/-- An escape with a code point behind it: the chord if it is bound, and the escape if not. -/
theorem Leads.next?_chord (htrie : k.trie = table.trie) {c : Char}
    (hpending : k.pending = [escape, c]) :
    ∃ stroke, (table.bindings.value? [escape, c]).isSome = true ∧
        stroke.sequence = [escape, c] ∧ k.next? = some (stroke, { k with pending := [] }) ∨
      table.bindings.value? [escape, c] = none ∧
        stroke.sequence = [escape] ∧ k.next? = some (stroke, { k with pending := [c] }) := by
  have hstrokes := htrie.trans h.trie_eq
  by_cases hbound : (table.bindings.value? [escape, c]).isSome = true
  · have hmem := Bindings.mem_map_sequence_iff.mpr hbound
    rw [← hpending] at hmem
    obtain ⟨stroke, hsequence, hnext⟩ :=
      KeyInput.next?_of_mem hstrokes (hpending ▸ List.cons_ne_nil _ _) hmem
    exact ⟨stroke, .inl ⟨hbound, hsequence.trans hpending, hnext⟩⟩
  · obtain ⟨stroke, hmatched, hsequence⟩ :=
      Trie.resolve_eq_matched_iff.mpr ⟨List.cons_ne_nil escape [], h.escape_mem⟩
    have halone := hmatched ▸ Trie.resolves_resolve table.bindings.strokes [escape]
    have hlongest : Trie.Resolves table.bindings.strokes [escape, c] (.matched stroke) := by
      cases halone with
      | matched hne hstarts _ hlatest =>
        refine .matched hne (hstarts.trans (List.prefix_append [escape] [c])) ?_ hlatest
        intro other hother hprefix
        by_contra hlonger
        rw [Stroke.length, Stroke.length, hsequence] at hlonger
        have hall : other.sequence = [escape, c] :=
          hprefix.eq_of_length_le (Nat.lt_of_not_le hlonger)
        exact hbound (Bindings.mem_map_sequence_iff.mp (hall ▸ List.mem_map_of_mem hother))
    have hnext := KeyInput.next?_of_resolves hstrokes (hpending ▸ hlongest) rfl
    refine ⟨stroke, .inr ⟨Option.not_isSome_iff_eq_none.mp hbound, hsequence, hnext.trans ?_⟩⟩
    rw [hpending, Stroke.length, hsequence]
    rfl

end Cutting

/-! ## What an escape and a code point mean -/

section Meaning

variable {m : Emacs} (h : Leads m.table) (hleader : m.leader = .idle)
  (hfree : m.focus.any Focus.isHeld = false) {stroke : Stroke}

/-- The dispatcher with the leader armed. -/
def armed (m : Emacs) : Emacs := { m with leader := .armed, focus := none }

/-- What a code point behind the leader leads to. -/
def chord (m : Emacs) (c : Char) : Emacs × Option Action :=
  match m.table.bindings.value? [escape, c] with
  | some command => build { m with focus := none } command
  | none => ({ m with focus := none }, none)

include h hleader hfree

/-- An escape arms the leader. -/
theorem parse_escape (hstroke : stroke.sequence = [escape]) : m.parse stroke = (m.armed, none) := by
  obtain ⟨table, leader, focus⟩ := m
  obtain rfl : leader = .idle := hleader
  have hget : table.get? stroke = some .metaPrefix := by
    rw [Keymap.get?, Bindings.get?_eq_value?, hstroke]
    exact (h.leader [escape]).mpr rfl
  rw [parse, Focus.route_of_free hfree]
  dsimp only
  rw [resolve, hget]
  rfl

omit h hfree in
/-- A code point behind it is looked up with the escape in front. -/
theorem parse_armed {c : Char} (hstroke : stroke.sequence = [c]) :
    m.armed.parse stroke = m.chord c := by
  obtain ⟨table, leader, focus⟩ := m
  obtain rfl : leader = .idle := hleader
  have hlength : stroke.length = 1 := by
    rw [Stroke.length, hstroke]
    rfl
  have hget : table.get? (stroke.after leaderKey) = table.bindings.value? [escape, c] := by
    have hsequence : (stroke.after leaderKey).sequence = [escape] ++ stroke.sequence := rfl
    rw [Keymap.get?, Bindings.get?_eq_value?, hsequence, hstroke]
    rfl
  have hroute : Focus.route (armed ⟨table, .idle, focus⟩).focus
      ((armed ⟨table, .idle, focus⟩).table.get? stroke) stroke = (none, none) := rfl
  rw [parse, hroute]
  dsimp only
  rw [resolve, armed, Leader.step]
  dsimp only
  rw [if_pos hlength]
  dsimp only
  rw [hget]
  unfold chord
  cases table.bindings.value? [escape, c] <;> rfl

/-- A chord that is bound means the same if it is cut as one key. -/
theorem parse_chord {c : Char} (hbound : (m.table.bindings.value? [escape, c]).isSome = true)
    (hstroke : stroke.sequence = [escape, c]) : m.parse stroke = m.chord c := by
  have hget : m.table.get? stroke = m.table.bindings.value? [escape, c] := by
    rw [Keymap.get?, Bindings.get?_eq_value?, hstroke]
  have hmeta : m.table.get? stroke ≠ some .metaPrefix := by
    rw [hget]
    intro hsame
    have hlength := congrArg List.length ((h.leader _).mp hsame)
    cases hlength
  obtain ⟨command, hcommand⟩ := Option.isSome_iff_exists.mp hbound
  rw [parse_of_idle hfree hleader hmeta, hget, chord, hcommand]

end Meaning

end Emacs

end PromptLine
