import PromptLine.Proofs.Mode.PlainText

/-!
# Typing text among added bindings

Sequences can be bound in addition to the usual ones.  In the modal dispatcher such a sequence works
in command status only, so it is not seen where text is typed: input is cut there as it usually is,
and a key means there what it usually means.  The plain dispatcher has one status, and every
binding works in it.

So with no action in focus, and no leader before it, a plain character is a key by itself that
stands for itself, and the key Enter commits the line.  That `d`, `g`, `0` and `/` are commands in
another status makes no difference.
-/

namespace PromptLine

/-- A result that was mapped comes from a result. -/
theorem exists_ok_of_map {ε α β : Type} {f : α → β} {result : Except ε α} {b : β}
    (h : result.map f = .ok b) : ∃ a, result = .ok a ∧ f a = b := by
  cases result with
  | error error => cases h
  | ok a => exact ⟨a, rfl, Except.ok.inj h⟩

/-- With no action in focus, and no leader before it, a key means what it is bound to or stands for
itself. -/
theorem Emacs.parse_of_idle {m : Emacs} (hfree : m.focus.any Focus.isHeld = false)
    (hleader : m.leader = .idle) {stroke : Stroke}
    (hmeta : m.table.get? stroke ≠ some .metaPrefix) :
    m.parse stroke =
      match m.table.get? stroke with
      | some command => build { m with focus := none } command
      | none => ({ m with focus := none }, stroke.printable?.map .insert) := by
  obtain ⟨table, leader, focus⟩ := m
  obtain rfl : leader = .idle := hleader
  rw [parse, Focus.route_of_free hfree]
  dsimp only
  rw [resolve, beq_false_of_ne hmeta]
  rfl

namespace Vi

/-! ## Bindings that were added -/

/-- The dispatcher has the usual bindings, and sequences that were bound after them. -/
structure Extended (m : Vi) : Prop where
  frozen : (Mode.vi m).Frozen
  bindings : ∃ added : List (Text × Command), m.table.bindings.entries =
    defaults.entries ++ added.map fun entry => (.ofSequence entry.1, [addedEntry entry.2])

variable {m after : Vi}

/-- Binding a sequence adds an entry at the end, and leaves all but the bindings alone. -/
theorem eq_of_addCommand {sequence : Text} {command : Command}
    (hbound : m.addCommand sequence command = .ok after) :
    ∃ b : Bindings Entries, b.entries =
        m.table.bindings.entries ++ [(.ofSequence sequence, [addedEntry command])] ∧
      after = { m with table := .ofBindings b, insertTrie := insertTrieOf (.ofBindings b) } := by
  rw [addCommand] at hbound
  obtain ⟨table, htable, rfl⟩ := exists_ok_of_map hbound
  rw [Keymap.bindSequence] at htable
  obtain ⟨b, hbind, rfl⟩ := exists_ok_of_map htable
  exact ⟨b, congrArg Bindings.entries (Bindings.eq_of_bind hbind).2, rfl⟩

theorem Extended.addCommand (h : m.Extended) {sequence : Text} {command : Command}
    (hbound : m.addCommand sequence command = .ok after) : after.Extended := by
  obtain ⟨added, hadded⟩ := h.bindings
  obtain ⟨b, hentries, rfl⟩ := eq_of_addCommand hbound
  refine ⟨⟨rfl, rfl⟩, added ++ [(sequence, command)], ?_⟩
  rw [Keymap.bindings_ofBindings, hentries, hadded, List.append_assoc, List.map_append]
  rfl

/-- With no action in focus, a key has an entry for typing text or stands for itself. -/
theorem parse_of_edit (hfree : m.focus.any Focus.isHeld = false) (hstatus : m.status = .edit)
    (stroke : Stroke) :
    m.parse stroke =
      match entryOf m.table.bindings .edit stroke.sequence with
      | some entry => follow { m with focus := none } entry
      | none => ({ m with focus := none }, Action.ofStroke? stroke) := by
  obtain ⟨table, insertTrie, status, lastChange, count, operatorCount, focus⟩ := m
  obtain rfl : status = .edit := hstatus
  rw [parse_of_free hfree, ← bind_get?_eq_entryOf]
  rfl

/-- What was added has no entry for typing text. -/
theorem for?_addedEntry (command : Command) : Entries.for? [addedEntry command] .edit = none := rfl

/-- Where text is typed, a sequence means what it usually means. -/
theorem Extended.entryOf_edit (h : m.Extended) (sequence : Text) :
    entryOf m.table.bindings .edit sequence = entryOf defaults .edit sequence := by
  obtain ⟨added, hadded⟩ := h.bindings
  rw [entryOf, entryOf, Bindings.get?, Bindings.get?, hadded, List.find?_append]
  cases husual : defaults.entries.find? fun entry => entry.1.same (.ofSequence sequence) with
  | some binding => rfl
  | none =>
    rw [Option.none_or]
    cases hfound : (added.map fun entry => (Stroke.ofSequence entry.1, [addedEntry entry.2])).find?
        fun entry => entry.1.same (.ofSequence sequence) with
    | none => rfl
    | some binding =>
      obtain ⟨entry, -, rfl⟩ := List.mem_map.mp (List.mem_of_find?_eq_some hfound)
      exact for?_addedEntry entry.2

/-- Where text is typed, input is cut as it usually is. -/
theorem Extended.filter_edit (h : m.Extended) :
    (m.table.bindings.entries.filter fun binding => (binding.2.for? .edit).isSome) =
      defaults.entries.filter fun binding => (binding.2.for? .edit).isSome := by
  obtain ⟨added, hadded⟩ := h.bindings
  have hnone : (added.map fun entry => (Stroke.ofSequence entry.1, [addedEntry entry.2])).filter
      (fun binding : Stroke × Entries => (binding.2.for? .edit).isSome) = [] := by
    refine List.filter_eq_nil_iff.mpr fun binding hbinding => ?_
    obtain ⟨entry, -, rfl⟩ := List.mem_map.mp hbinding
    rw [for?_addedEntry]
    exact Bool.false_ne_true
  rw [hadded, List.filter_append, hnone, List.append_nil]

end Vi

namespace Mode

/-! ## Where text is entered -/

/-- The usual bindings, and in the modal dispatcher sequences that were bound after them. -/
def Extended : Mode → Prop
  | emacs m => m.table = .ofBindings Emacs.defaults
  | vi m => m.Extended

/-- The next key is one of a text: no action has the focus, no leader was typed before it, and the
modal dispatcher is not in the middle of a command. -/
def AwaitsText : Mode → Prop
  | emacs m => m.focus.any Focus.isHeld = false ∧ m.leader = .idle
  | vi m => m.focus.any Focus.isHeld = false ∧ m.status = .edit

instance : DecidablePred AwaitsText
  | emacs _ => instDecidableAnd
  | vi _ => instDecidableAnd

/-- Text is entered, and no binding that was added is in the way. -/
structure EntersText (m : Mode) : Prop where
  bindings : m.Extended
  awaits : m.AwaitsText

/-- The mode without an action that has let go of the focus. -/
def unfocused : Mode → Mode
  | emacs m => emacs { m with focus := none }
  | vi m => vi { m with focus := none }

variable {m after : Mode}

@[simp] theorem unfocused_unfocused (m : Mode) : m.unfocused.unfocused = m.unfocused := by
  cases m <;> rfl

theorem unfocused_of_focus?_eq_none (h : m.focus? = none) : m.unfocused = m := by
  cases m with
  | emacs m =>
    have hfocus : m.focus = none := h
    rw [unfocused, ← hfocus]
  | vi m =>
    have hfocus : m.focus = none := h
    rw [unfocused, ← hfocus]

@[simp] theorem takeBack_insert (m : Mode) (c : Char) : m.takeBack (.insert c) = m := by
  cases m <;> rfl

theorem Usual.extended (h : m.Usual) : m.Extended := by
  cases m with
  | emacs m => exact h.table_emacs
  | vi m => exact ⟨h.frozen, [], by rw [h.table_vi]; exact (List.append_nil _).symm⟩

theorem Extended.frozen (h : m.Extended) : m.Frozen := by
  cases m with
  | emacs m =>
    have htable : m.table = .ofBindings Emacs.defaults := h
    rw [Frozen, htable]
    rfl
  | vi m => exact Vi.Extended.frozen h

theorem EntersText.unfocused (h : m.EntersText) : m.unfocused.EntersText := by
  obtain ⟨hbindings, hawaits⟩ := h
  cases m with
  | emacs m => exact ⟨hbindings, rfl, hawaits.2⟩
  | vi m =>
    have hextended : m.Extended := hbindings
    exact ⟨⟨hextended.frozen, hextended.bindings⟩, rfl, hawaits.2⟩

/-- The modal dispatcher goes on with the text when a sequence is bound. -/
theorem EntersText.addCommand (h : m.EntersText) (hmodal : m.editingMode = .vi) {sequence : Text}
    {command : Command} (hbound : m.addCommand sequence command = .ok after) :
    after.EntersText ∧ after.editingMode = .vi := by
  cases m with
  | emacs m => cases hmodal
  | vi m =>
    obtain ⟨extended, hadded, rfl⟩ := exists_ok_of_map hbound
    refine ⟨⟨Vi.Extended.addCommand h.bindings hadded, ?_⟩, rfl⟩
    obtain ⟨b, -, rfl⟩ := Vi.eq_of_addCommand hadded
    exact h.awaits

/-! ## Keys of a text -/

section Keys

variable (h : m.EntersText)

include h

/-- A key means to text what it usually means. -/
theorem EntersText.textCommand?_eq (stroke : Stroke) :
    m.textCommand? stroke = (start m.editingMode .ansi).textCommand? stroke := by
  cases m with
  | emacs m =>
    have htable : m.table = .ofBindings Emacs.defaults := h.bindings
    rw [editingMode, start_emacs_ansi, textCommand?, textCommand?, htable]
    rfl
  | vi m =>
    rw [editingMode, start_vi_ansi, textCommand?, textCommand?, Vi.textCommand?, Vi.textCommand?,
      Keymap.get?, Keymap.get?, Vi.bind_get?_eq_entryOf, Vi.bind_get?_eq_entryOf,
      Vi.Extended.entryOf_edit h.bindings]
    rfl

/-- Where text is entered, input is cut as it usually is. -/
theorem EntersText.active_eq : m.active = (start m.editingMode .ansi).active := by
  cases m with
  | emacs m =>
    have htable : m.table = .ofBindings Emacs.defaults := h.bindings
    rw [editingMode, start_emacs_ansi, active, htable]
    rfl
  | vi m =>
    have htext : Status.edit.takesText = true := rfl
    rw [editingMode, start_vi_ansi, active, h.awaits.2, if_pos htext,
      Vi.Extended.filter_edit h.bindings]
    rfl

/-- A sequence that is bound where text is entered begins with a control code. -/
theorem EntersText.isControl_of_active {stroke : Stroke} (hmem : stroke ∈ m.active) {c : Char}
    (hhead : stroke.sequence.head? = some c) : Unicode.isControl c = true := by
  by_contra hplain
  rw [h.active_eq] at hmem
  have husual : (start m.editingMode .ansi).Usual := ⟨_, pristine_start _ _⟩
  have htext := (husual.plain_of_active hmem hhead (Bool.eq_false_iff.mpr hplain)).1
  cases m <;> cases htext

/-- Enter is bound where text is entered. -/
theorem EntersText.enter_mem_active : ['\r'] ∈ m.active.map Stroke.sequence := by
  rw [h.active_eq]
  cases m with
  | emacs m =>
    rw [editingMode, start_emacs_ansi]
    decide
  | vi m =>
    have henter : Vi.entryOf Vi.defaults .edit ['\r'] =
        some ⟨.acceptLine, .edit, .edit, .never⟩ := by
      rw [Vi.entryOf_defaults]
      rfl
    have htable : (Vi.ofTable (.ofBindings Vi.defaults)).table = .ofBindings Vi.defaults := rfl
    rw [editingMode, start_vi_ansi]
    exact List.mem_map.mpr (exists_active_of_edit htable henter)

/-- **Enter is a key.** -/
theorem EntersText.next?_enter {k : KeyInput} (htrie : k.trie = m.keys)
    (hpending : k.pending = ['\r']) :
    ∃ stroke, stroke.sequence = ['\r'] ∧ k.next? = some (stroke, { k with pending := [] }) := by
  have hmem := h.enter_mem_active
  rw [← hpending] at hmem ⊢
  exact KeyInput.next?_of_mem (htrie.trans (keys_eq_ofList h.bindings.frozen))
    (hpending ▸ List.cons_ne_nil _ _) hmem

variable {c : Char}

/-- **A plain character is a key by itself.** -/
theorem EntersText.next?_plain {k : KeyInput} (htrie : k.trie = m.keys) {rest : Text}
    (hpending : k.pending = c :: rest) (hplain : Unicode.isControl c = false) :
    k.next? = some (.ofChar c, { k with pending := rest }) := by
  refine KeyInput.next?_of_head_ne (htrie.trans (keys_eq_ofList h.bindings.frozen)) hpending ?_
  intro stroke hmem hhead
  exact absurd (h.isControl_of_active hmem hhead) (Bool.eq_false_iff.mp hplain)

/-- **A plain character stands for itself.** -/
theorem EntersText.parse_plain {stroke : Stroke} (hstroke : stroke.sequence = [c])
    (hplain : Unicode.isControl c = false) :
    m.parse stroke = (m.unfocused, some (.insert c)) := by
  have husual : (start m.editingMode .ansi).Usual := ⟨_, pristine_start _ _⟩
  have hunbound : m.textCommand? stroke = none := by
    rw [h.textCommand?_eq]
    exact husual.textCommand?_of_plain hstroke hplain
  have hprintable := Stroke.printable?_of_plain hstroke hplain
  cases m with
  | emacs m =>
    have hget : m.table.get? stroke = none := hunbound
    have hmeta : m.table.get? stroke ≠ some .metaPrefix := by
      rw [hget]
      decide
    rw [parse, Emacs.parse_of_idle h.awaits.1 h.awaits.2 hmeta, hget, hprintable]
    rfl
  | vi m =>
    rw [textCommand?, Vi.textCommand?, Keymap.get?, Vi.bind_get?_eq_entryOf,
      Option.map_eq_none_iff] at hunbound
    rw [parse, Vi.parse_of_edit h.awaits.1 h.awaits.2, hunbound, Action.ofStroke?, hprintable]
    rfl

/-- **Enter commits the line.** -/
theorem EntersText.parse_enter {stroke : Stroke} (hstroke : stroke.sequence = ['\r']) :
    ∃ after count, m.parse stroke = (after, some (.plain .acceptLine count)) := by
  cases m with
  | emacs m =>
    have htable : m.table = .ofBindings Emacs.defaults := h.bindings
    have hget : m.table.get? stroke = some .acceptLine := by
      rw [htable, Keymap.get?, Keymap.bindings_ofBindings, Bindings.get?_eq_value?, hstroke]
      rfl
    refine ⟨emacs { m with focus := none }, 1, ?_⟩
    have hmeta : m.table.get? stroke ≠ some .metaPrefix := by
      rw [hget]
      decide
    rw [parse, Emacs.parse_of_idle h.awaits.1 h.awaits.2 hmeta, hget]
    rfl
  | vi m =>
    have hentry : Vi.entryOf m.table.bindings .edit stroke.sequence =
        some ⟨.acceptLine, .edit, .edit, .never⟩ := by
      rw [Vi.Extended.entryOf_edit h.bindings, hstroke, Vi.entryOf_defaults]
      rfl
    have hparse : m.parse stroke =
        Vi.follow { m with focus := none } ⟨.acceptLine, .edit, .edit, .never⟩ := by
      rw [Vi.parse_of_edit h.awaits.1 h.awaits.2, hentry]
    exact ⟨_, _, Mode.parse_vi hparse⟩

end Keys

end Mode

end PromptLine
