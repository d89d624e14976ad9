import PromptLine.Proofs.Mode.ViKeys

/-!
# Plain text among the usual bindings

Text without control codes is cut into single code points, because with the usual bindings every
sequence that means something while text is typed begins with a control code.  In command status
there are two more sequences of several keys, `gU` and `gu`; everything else that begins with a
plain character is that character alone.

An action in focus takes the keys of a mode without touching the rest of its state.
-/

namespace PromptLine

namespace Mode

/-! ## Taking keys for an action in focus -/

/-- Whether input is cut as text. -/
def takesText : Mode → Bool
  | emacs _ => true
  | vi m => m.status.takesText

/-- The mode with an action in focus. -/
def refocus (m : Mode) (f : Focus) : Mode :=
  match m with
  | emacs m => emacs { m with focus := some f }
  | vi m => vi { m with focus := some f }

/-- What a key means to an action in focus. -/
def textCommand? (m : Mode) (stroke : Stroke) : Option Command :=
  match m with
  | emacs m => m.table.get? stroke
  | vi m => m.textCommand? stroke

@[simp] theorem focus?_refocus (m : Mode) (f : Focus) : (m.refocus f).focus? = some f := by
  cases m <;> rfl

@[simp] theorem takesText_refocus (m : Mode) (f : Focus) :
    (m.refocus f).takesText = m.takesText := by
  cases m <;> rfl

@[simp] theorem pristine_refocus (m : Mode) (f : Focus) : (m.refocus f).pristine = m.pristine := by
  cases m <;> rfl

@[simp] theorem takeBack_refocus (m : Mode) (f g : Focus) :
    (m.refocus f).takeBack (.focus g) = m.refocus g := by
  cases m <;> rfl

/-- **An action in focus gets every key**, and nothing else of the mode changes. -/
theorem parse_of_held {m : Mode} {f : Focus} (hfocus : m.focus? = some f) (hheld : f.isHeld = true)
    (stroke : Stroke) :
    m.parse stroke =
      (m.refocus (f.input (m.textCommand? stroke) stroke),
        some (.focus (f.input (m.textCommand? stroke) stroke))) := by
  cases m with
  | emacs m =>
    have hroute : Focus.route m.focus (m.table.get? stroke) stroke =
        (some (f.input (m.table.get? stroke) stroke),
          some (.focus (f.input (m.table.get? stroke) stroke))) := by
      rw [show m.focus = some f from hfocus]
      exact if_pos hheld
    rw [parse, Emacs.parse, hroute]
    rfl
  | vi m =>
    rw [parse, Vi.parse_of_held hfocus hheld]
    rfl

/-! ## Plain text -/

theorem not_all_isControl {head : Option Char} {c : Char} (hhead : head = some c)
    (hplain : Unicode.isControl c = false) : ¬head.all Unicode.isControl = true := by
  rw [hhead, Option.all_some, hplain]
  exact Bool.false_ne_true

theorem all_isControl_emacs : ∀ binding ∈ Emacs.defaults.entries,
    binding.1.sequence.head?.all Unicode.isControl = true := by
  decide

set_option maxRecDepth 2000 in
theorem all_isControl_edit : ∀ binding ∈ Vi.defaults.entries, ∀ entry ∈ binding.2,
    entry.required = .edit → binding.1.sequence.head?.all Unicode.isControl = true :=
  Vi.forall_entries_defaults
    (P := fun sequence entry => entry.required = .edit →
      sequence.head?.all Unicode.isControl = true)
    (by decide)

/-- A bound sequence that begins with a plain character. -/
theorem Usual.plain_of_active {m : Mode} (h : m.Usual) {stroke : Stroke} (hmem : stroke ∈ m.active)
    {c : Char} (hhead : stroke.sequence.head? = some c) (hplain : Unicode.isControl c = false) :
    m.takesText = false ∧
      (stroke.sequence = [c] ∨ stroke.sequence = ['g', 'U'] ∨ stroke.sequence = ['g', 'u']) := by
  cases m with
  | emacs m =>
    rw [active, h.table_emacs] at hmem
    obtain ⟨binding, hbinding, rfl⟩ := List.mem_map.mp hmem
    exact absurd (all_isControl_emacs binding hbinding) (not_all_isControl hhead hplain)
  | vi m =>
    rw [active, h.table_vi] at hmem
    split at hmem
    · obtain ⟨binding, hbinding, rfl⟩ := List.mem_map.mp hmem
      obtain ⟨hbinding, hedit⟩ := List.mem_filter.mp hbinding
      obtain ⟨entry, hentry⟩ := Option.isSome_iff_exists.mp hedit
      obtain ⟨hmem, hrequired⟩ := Entries.of_for? hentry
      have hcontrol := all_isControl_edit binding hbinding entry hmem hrequired
      exact absurd hcontrol (not_all_isControl hhead hplain)
    · next hstatus =>
      refine ⟨Bool.eq_false_iff.mpr hstatus, ?_⟩
      rcases Trie.shape_of_mem_vi stroke hmem with hescape | htail | hlonger
      · obtain rfl : c = escape := Option.some.inj (hhead.symm.trans hescape)
        cases hplain
      · rw [← List.cons_head?_tail hhead, htail]
        exact .inl rfl
      · exact .inr hlonger

/-- Where text is typed, a plain character is bound to nothing. -/
theorem Usual.textCommand?_of_plain {m : Mode} (h : m.Usual) {stroke : Stroke} {c : Char}
    (hstroke : stroke.sequence = [c]) (hplain : Unicode.isControl c = false) :
    m.textCommand? stroke = none := by
  cases m with
  | emacs m =>
    rw [textCommand?, h.table_emacs]
    cases hget : Emacs.defaults.get? stroke with
    | none => exact hget
    | some command =>
      obtain ⟨bound, hbound, hsequence⟩ := Bindings.exists_of_get? hget
      have hhead : bound.sequence.head? = some c := by rw [hsequence, hstroke, List.head?_cons]
      exact absurd (all_isControl_emacs _ hbound) (not_all_isControl hhead hplain)
  | vi m =>
    rw [textCommand?, Vi.textCommand?, h.table_vi, Keymap.get?, Vi.bind_get?_eq_entryOf]
    cases hentry : Vi.entryOf Vi.defaults .edit stroke.sequence with
    | none =>
      rw [Keymap.bindings_ofBindings, hentry]
      rfl
    | some entry =>
      obtain ⟨hrequired, bound, entries, hbound, hsequence, hmem⟩ := Vi.exists_of_entryOf hentry
      have hhead : bound.sequence.head? = some c := by rw [hsequence, hstroke, List.head?_cons]
      exact absurd (all_isControl_edit _ hbound entry hmem hrequired)
        (not_all_isControl hhead hplain)

/-- Text that can be typed in a mode: without control codes, and where input is cut as commands,
without the two operators that are longer than a key. -/
structure Plain (m : Mode) (text : Text) : Prop where
  plain : ∀ c ∈ text, Unicode.isControl c = false
  whole : m.takesText = false → ¬['g', 'U'] <:+: text ∧ ¬['g', 'u'] <:+: text

theorem Plain.of_infix {m : Mode} {text rest : Text} (h : m.Plain text) (hrest : rest <:+: text) :
    m.Plain rest :=
  ⟨fun c hc => h.plain c (hrest.subset hc), fun htext =>
    ⟨fun hupper => (h.whole htext).1 (hupper.trans hrest),
      fun hlower => (h.whole htext).2 (hlower.trans hrest)⟩⟩

/-- What is plain in a mode is plain with any action in focus. -/
theorem Plain.refocus {m : Mode} {text : Text} (h : m.Plain text) (f : Focus) :
    (m.refocus f).Plain text :=
  ⟨h.plain, fun htext => h.whole ((m.takesText_refocus f).symm.trans htext)⟩

/-- **Plain text is cut into single characters.** -/
theorem Plain.next? {m : Mode} {k after : KeyInput} {stroke : Stroke} (h : m.Plain k.pending)
    (husual : m.Usual) (htrie : k.trie = m.keys) (hnext : k.next? = some (stroke, after)) :
    ∃ c, stroke.sequence = [c] ∧ Unicode.isControl c = false ∧ k.pending = c :: after.pending := by
  obtain ⟨hready, -, rfl⟩ := KeyInput.next?_eq_some hnext
  obtain ⟨pending, trie⟩ := k
  have hresolves := Trie.resolves_resolve m.active pending
  rw [KeyInput.peek?, KeyInput.resolve, htrie, keys_eq_ofList husual.frozen] at hready
  obtain ⟨hne, rest, hrest⟩ := hresolves.starts hready
  have hsingle : ∃ c, stroke.sequence = [c] := by
    clear hrest hnext
    generalize (Trie.ofList m.active).resolve pending = resolution at hresolves hready
    cases hresolves with
    | nothing => cases hready
    | incomplete => cases hready
    | @unbound c _ _ _ =>
      cases hready
      exact ⟨c, rfl⟩
    | matched nonempty starts longest latest =>
      cases hready
      obtain ⟨c, tail, hsequence⟩ := List.exists_cons_of_ne_nil nonempty
      have hplain : Unicode.isControl c = false :=
        h.plain c (starts.subset (hsequence ▸ List.mem_cons_self))
      obtain ⟨htext, hone | hupper | hlower⟩ := husual.plain_of_active
        (Trie.sequence_of_latest? latest).1 (hsequence ▸ List.head?_cons) hplain
      · exact ⟨c, hone⟩
      · exact absurd (hupper ▸ starts.isInfix) (h.whole htext).1
      · exact absurd (hlower ▸ starts.isInfix) (h.whole htext).2
  obtain ⟨c, hc⟩ := hsingle
  have hpending : pending = c :: pending.drop stroke.length := by
    rw [Stroke.length, hc, ← hrest, hc]
    rfl
  exact ⟨c, hc, h.plain c (hpending ▸ List.mem_cons_self), hpending⟩

end Mode

end PromptLine
