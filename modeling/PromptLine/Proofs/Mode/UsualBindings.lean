import PromptLine.Proofs.Key.MoreInput
import PromptLine.Proofs.Key.UsualDevice
import PromptLine.Proofs.Mode.Bindings
import PromptLine.Proofs.Mode.Declarations

/-!
# The usual bindings

Two things about the usual tables matter for how input is cut.  Escape stands nowhere but at the
beginning of a bound sequence, and is bound by itself, so that it never waits for anything.  And
apart from the sequences that begin with it, no bound sequence begins with another one.  So with
these tables an ambiguity is always the one between escape and what can follow it.
-/

namespace PromptLine

namespace Trie

/-! ## Tables in which only the escape is ambiguous -/

/-- Only sequences that begin with an escape begin with one another, and no escape stands within a
sequence. -/
structure OnlyEscapeNests (strokes : List Stroke) : Prop where
  leads : ∀ stroke ∈ strokes, escape ∉ stroke.sequence.tail
  apart : ∀ longer ∈ strokes, longer.sequence.head? ≠ some escape →
    ∀ stroke ∈ strokes, stroke.sequence <+: longer.sequence → stroke.sequence = longer.sequence

theorem onlyEscapeNests_emacs : OnlyEscapeNests Emacs.defaults.strokes where
  leads := by decide
  apart := by decide

set_option maxRecDepth 2000 in
/-- Besides the sequences that an escape begins, two of the modal table are two keys long. -/
theorem shape_of_mem_vi : ∀ stroke ∈ Vi.defaults.strokes, stroke.sequence.head? = some escape ∨
    stroke.sequence.tail = [] ∨ stroke.sequence = ['g', 'U'] ∨ stroke.sequence = ['g', 'u'] :=
  Vi.forall_strokes_defaults
    (Q := fun sequence => sequence.head? = some escape ∨ sequence.tail = [] ∨
      sequence = ['g', 'U'] ∨ sequence = ['g', 'u'])
    (by decide)

theorem eq_of_prefix_pair {s : Text} {c d : Char} (h : s <+: [c, d]) (hnil : s ≠ [])
    (hfirst : s ≠ [c]) : s = [c, d] := by
  obtain ⟨tail, rfl, htail⟩ := (List.prefix_cons_iff.mp h).resolve_left hnil
  rcases List.prefix_cons_iff.mp htail with rfl | ⟨rest, rfl, hrest⟩
  · exact absurd rfl hfirst
  · rw [List.prefix_nil.mp hrest]

set_option maxRecDepth 2000 in
theorem onlyEscapeNests_vi : OnlyEscapeNests Vi.defaults.strokes where
  leads := Vi.forall_strokes_defaults (Q := (escape ∉ ·.tail)) (by decide)
  apart := by
    intro longer hlonger hhead stroke hstroke hstarts
    have hmem : stroke.sequence ∈ Vi.defaults.sequences :=
      Vi.defaults.map_sequence_strokes ▸ List.mem_map_of_mem hstroke
    have hnil : stroke.sequence ≠ [] := fun hnil =>
      absurd (Vi.mem_sequences_defaults.mp (hnil ▸ hmem)) (by decide)
    -- the key that two sequences begin with is not bound by itself
    have hfirst : stroke.sequence ≠ ['g'] := fun hfirst =>
      absurd (Vi.mem_sequences_defaults.mp (hfirst ▸ hmem)) (by decide)
    rcases shape_of_mem_vi longer hlonger with hescape | htail | hupper | hlower
    · exact absurd hescape hhead
    · have hlength : longer.sequence.length - 1 = 0 := by rw [← List.length_tail, htail]; rfl
      have hpos := List.length_pos_iff.mpr hnil
      exact hstarts.eq_of_length_le (by omega)
    · rw [hupper] at hstarts ⊢
      exact eq_of_prefix_pair hstarts hnil hfirst
    · rw [hlower] at hstarts ⊢
      exact eq_of_prefix_pair hstarts hnil hfirst

/-- **Only an escape can be ambiguous.**  Text is settled if no rest of it that begins with an
escape is the beginning of a bound sequence. -/
theorem OnlyEscapeNests.settled {strokes : List Stroke} (h : OnlyEscapeNests strokes) {text : Text}
    (hescape : ∀ rest, rest <:+ text → rest.head? = some escape → ¬Begins strokes rest) :
    Settled strokes text := by
  rintro rest hrest ⟨longer, hlonger, hbegins, hproper⟩ stroke hstroke hstarts
  by_cases hhead : longer.sequence.head? = some escape
  · cases rest with
    | nil => exact List.prefix_nil.mp hstarts
    | cons c rest =>
      have hfirst : (c :: rest).head? = some escape := by
        obtain ⟨after, hafter⟩ := hbegins
        rwa [← hafter] at hhead
      exact absurd ⟨longer, hlonger, hbegins, hproper⟩ (hescape _ hrest hfirst)
  · have hsame := h.apart longer hlonger hhead stroke hstroke (hstarts.trans hbegins)
    have hlength := hstarts.length_le
    rw [hsame] at hlength
    exact absurd (hbegins.eq_of_length_le hlength) hproper

/-- A rest of waiting input and new text that begins with an escape is a rest of the new text. -/
theorem suffix_of_escape_notMem {pending text rest : Text} (hpending : escape ∉ pending)
    (hrest : rest <:+ pending ++ text) (hhead : rest.head? = some escape) : rest <:+ text := by
  rcases List.suffix_or_suffix_of_suffix hrest (List.suffix_append pending text) with hin | hout
  · exact hin
  · obtain ⟨front, rfl⟩ := hout
    obtain ⟨before, hbefore⟩ := hrest
    rw [← List.append_assoc] at hbefore
    obtain rfl := List.append_cancel_right hbefore
    cases front with
    | nil => exact List.suffix_refl text
    | cons c front =>
      obtain rfl : c = escape := Option.some.inj hhead
      exact absurd (List.mem_append_right before List.mem_cons_self) hpending

end Trie

namespace Mode

/-! ## Modes with the usual bindings -/

theorem start_emacs_ansi : start .emacs .ansi = emacs (.ofTable (.ofBindings Emacs.defaults)) := by
  rw [start, Emacs.start, DeviceReport.remap_ansi]

theorem start_vi_ansi : start .vi .ansi = vi (.ofTable (.ofBindings Vi.defaults)) := by
  rw [start, Vi.start, DeviceReport.remap_ansi]

/-- The mode has the usual bindings. -/
def Usual (m : Mode) : Prop := ∃ mode, m.pristine = start mode .ansi

theorem Usual.frozen {m : Mode} (h : m.Usual) : m.Frozen := by
  obtain ⟨mode, h⟩ := h
  rw [← frozen_pristine, h]
  exact frozen_start mode .ansi

theorem Usual.onlyEscapeNests {m : Mode} (h : m.Usual) : Trie.OnlyEscapeNests m.strokes := by
  obtain ⟨mode, h⟩ := h
  rw [← strokes_pristine, h]
  cases mode with
  | emacs =>
    rw [start_emacs_ansi]
    exact Trie.onlyEscapeNests_emacs
  | vi =>
    rw [start_vi_ansi]
    exact Trie.onlyEscapeNests_vi

theorem table_of_pristine_emacs {m : Emacs} {table : Keymap Command}
    (h : (emacs m).pristine = emacs (.ofTable table)) : m.table = table :=
  congrArg Emacs.table (emacs.inj h)

theorem table_of_pristine_vi {m : Vi} {table : Keymap Entries}
    (h : (vi m).pristine = vi (.ofTable table)) : m.table = table :=
  congrArg Vi.table (vi.inj h)

/-- The plain dispatcher with the usual bindings. -/
theorem Usual.table_emacs {m : Emacs} (h : (emacs m).Usual) :
    m.table = .ofBindings Emacs.defaults := by
  obtain ⟨mode, h⟩ := h
  cases mode with
  | vi => cases h
  | emacs =>
    rw [start_emacs_ansi] at h
    exact table_of_pristine_emacs h

/-- The modal dispatcher with the usual bindings. -/
theorem Usual.table_vi {m : Vi} (h : (vi m).Usual) : m.table = .ofBindings Vi.defaults := by
  obtain ⟨mode, h⟩ := h
  cases mode with
  | emacs => cases h
  | vi =>
    rw [start_vi_ansi] at h
    exact table_of_pristine_vi h

/-- A key for typed text is cut from the input in every status. -/
theorem exists_active_of_edit {m : Vi} (htable : m.table = .ofBindings Vi.defaults)
    {sequence : Text} {entry : Entry}
    (hentry : Vi.entryOf Vi.defaults .edit sequence = some entry) :
    ∃ stroke ∈ (Mode.vi m).active, stroke.sequence = sequence := by
  obtain ⟨entries, hget, hfor⟩ := Option.bind_eq_some_iff.mp hentry
  obtain ⟨bound, hbound, hsequence⟩ := Bindings.exists_of_get? hget
  have hedit : (entries.for? .edit).isSome = true := Option.isSome_of_eq_some hfor
  rw [active, htable]
  split
  · exact ⟨bound, List.mem_map_of_mem (List.mem_filter.mpr ⟨hbound, hedit⟩), hsequence⟩
  · exact ⟨bound, List.mem_map_of_mem hbound, hsequence⟩

/-- In every state a key is cut from the input that the plain table binds and that is one for typed
text. -/
theorem Usual.exists_active {m : Mode} (h : m.Usual) {sequence : Text}
    (hplain : ∃ stroke ∈ Emacs.defaults.strokes, stroke.sequence = sequence)
    {entry : Entry} (hentry : Vi.entryOf Vi.defaults .edit sequence = some entry) :
    ∃ stroke ∈ m.active, stroke.sequence = sequence := by
  cases m with
  | emacs m =>
    rw [active, h.table_emacs]
    exact hplain
  | vi m => exact exists_active_of_edit h.table_vi hentry

theorem entryOf_edit_escape :
    Vi.entryOf Vi.defaults .edit [escape] = some ⟨.viCommandMode, .edit, .command, .never⟩ := by
  rw [Vi.entryOf_defaults]
  rfl

/-- In every state escape is a keystroke by itself. -/
theorem Usual.exists_escape_active {m : Mode} (h : m.Usual) :
    ∃ stroke ∈ m.active, stroke.sequence = [escape] :=
  h.exists_active (by decide) entryOf_edit_escape

/-- Input that waits holds no escape. -/
theorem Usual.escape_notMem_pending {m : Mode} (h : m.Usual) {k : KeyInput}
    (htrie : k.trie = m.keys) (hwaits : k.next? = none) : escape ∉ k.pending := by
  rw [keys_eq_ofList h.frozen] at htrie
  rcases KeyInput.pending_of_next?_eq_none htrie hwaits with hnil | ⟨hbegins, hunmatched⟩
  · rw [hnil]
    exact List.not_mem_nil
  · obtain ⟨longer, hlonger, hprefix, -⟩ := hbegins
    obtain ⟨stroke, hstroke, hsequence⟩ := h.exists_escape_active
    cases hpending : k.pending with
    | nil => exact List.not_mem_nil
    | cons c rest =>
      rw [hpending] at hprefix hunmatched
      intro hmem
      rcases List.mem_cons.mp hmem with hfirst | hlater
      · have hnil := hunmatched stroke hstroke (by
          rw [hsequence, hfirst]
          exact List.prefix_append [c] rest)
        rw [hsequence] at hnil
        cases hnil
      · obtain ⟨after, hafter⟩ := hprefix
        refine h.onlyEscapeNests.leads longer (mem_strokes_of_mem_active hlonger) ?_
        rw [← hafter]
        exact List.mem_append_left after hlater

end Mode

end PromptLine
