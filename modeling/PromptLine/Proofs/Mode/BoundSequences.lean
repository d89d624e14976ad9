import PromptLine.Proofs.Mode.DeviceKeys
import PromptLine.Proofs.Mode.TextEntry

/-!
# Sequences that a mode has bound

A mode keeps one trie of all sequences that are bound.  The modal dispatcher keeps a second one, of
those that mean something while text is typed, and cuts input by it in the statuses for that.  Both
are made of the table and kept beside it, so whoever changes the table has to make them anew.

Binding one more sequence does this.  It is refused if the sequence is empty or bound, and otherwise
the mode is extended by one entry (`addCommand_eq`).  With a sequence that was not bound before, a
trie takes those that were as it did (`Trie.takesAlone_concat`).
-/

namespace PromptLine

namespace Trie

variable {strokes : List Stroke} {stroke : Stroke} {s : Text}

theorem latest?_concat (strokes : List Stroke) (stroke : Stroke) (s : Text) :
    latest? (strokes ++ [stroke]) s =
      if s = stroke.sequence then some stroke else latest? strokes s := by
  rw [← get?_ofList, ofList_concat, get?_insert, get?_ofList]

/-- Fed alone, the text is taken as the given keystroke, and nothing is left of it. -/
def TakesAlone (trie : Trie) (text : Text) (stroke : Stroke) : Prop :=
  ((KeyInput.start trie).feed text).next? = some (stroke, .start trie)

/-- A bound sequence is the longest match of itself, whatever else is bound. -/
theorem takesAlone_of_latest? (hne : s ≠ []) (h : latest? strokes s = some stroke) :
    (ofList strokes).TakesAlone s stroke := by
  obtain ⟨-, rfl⟩ := sequence_of_latest? h
  have hresolve : (ofList strokes).resolve stroke.sequence = .matched stroke :=
    (resolves_resolve strokes _).unique
      (.matched hne (List.prefix_refl _) (fun _ _ hstarts => hstarts.length_le) h)
  have hpeek : ((KeyInput.start (ofList strokes)).feed stroke.sequence).peek? = some stroke :=
    congrArg Resolution.stroke? hresolve
  have hlength : stroke.length ≠ 0 := fun hzero => hne (List.length_eq_zero_iff.mp hzero)
  have hrest : ([] ++ stroke.sequence).drop stroke.length = [] := List.drop_length
  rw [TakesAlone, KeyInput.next?, hpeek]
  dsimp only
  rw [if_neg hlength, KeyInput.pending_feed, KeyInput.start, hrest]
  rfl

/-- **A bound sequence stands for itself**, and still does when another one is bound. -/
theorem takesAlone_concat (hmem : s ∈ strokes.map Stroke.sequence) (hne : s ≠ [])
    (hnew : stroke.sequence ∉ strokes.map Stroke.sequence) :
    ∃ bound, bound.sequence = s ∧ (ofList strokes).TakesAlone s bound ∧
      (ofList (strokes ++ [stroke])).TakesAlone s bound := by
  obtain ⟨bound, hlatest⟩ := Option.isSome_iff_exists.mp (isSome_latest?_iff.mpr hmem)
  have hother : s ≠ stroke.sequence := fun heq => hnew (heq ▸ hmem)
  refine ⟨bound, (sequence_of_latest? hlatest).2, takesAlone_of_latest? hne hlatest, ?_⟩
  refine takesAlone_of_latest? hne ?_
  rw [latest?_concat, if_neg hother, hlatest]

/-- The one that was bound last stands for itself, too. -/
theorem takesAlone_concat_self (strokes : List Stroke) (h : stroke.sequence ≠ []) :
    (ofList (strokes ++ [stroke])).TakesAlone stroke.sequence stroke := by
  refine takesAlone_of_latest? h ?_
  rw [latest?_concat, if_pos rfl]

end Trie

namespace Mode

variable {m after : Mode} {sequence : Text} {command : Command}

/-! ## Tables and tries -/

/-- The bound sequences. -/
def sequences (m : Mode) : List Text := m.strokes.map Stroke.sequence

/-- Whether input is cut by some of the bound sequences only. -/
def isNarrow : Mode → Bool
  | emacs _ => false
  | vi m => m.status.takesText

/-- The trie of all bound sequences. -/
def fullTrie : Mode → Trie
  | emacs m => m.table.trie
  | vi m => m.table.trie

/-- The trie that input is cut by where only some of them mean something. -/
def narrowTrie : Mode → Trie
  | emacs m => m.table.trie
  | vi m => m.insertTrie

theorem keys_eq (m : Mode) : m.keys = if m.isNarrow then m.narrowTrie else m.fullTrie := by
  cases m <;> rfl

theorem fullTrie_pristine (m : Mode) : m.pristine.fullTrie = m.fullTrie := by
  cases m <;> rfl

theorem narrowTrie_pristine (m : Mode) : m.pristine.narrowTrie = m.narrowTrie := by
  cases m <;> rfl

/-- Every binding is active unless only some are. -/
theorem active_of_not_narrow (h : m.isNarrow = false) : m.active = m.strokes := by
  cases m with
  | emacs m => rfl
  | vi m =>
    have hstatus : ¬m.status.takesText = true := Bool.eq_false_iff.mp h
    exact if_neg hstatus

/-- The active keystrokes are bound, in the same order. -/
theorem active_sublist (m : Mode) : m.active.Sublist m.strokes := by
  cases m with
  | emacs m => exact .refl _
  | vi m =>
    rw [active]
    split
    · exact List.filter_sublist.map _
    · exact .refl _

theorem fullTrie_eq (h : m.Frozen) : m.fullTrie = .ofList m.strokes := by
  cases m with
  | emacs m =>
    have htable : m.table = .ofBindings m.table.bindings := h
    rw [fullTrie, htable]
    rfl
  | vi m =>
    rw [fullTrie, h.1]
    rfl

/-- The tries of a mode hold what its table holds, which is neither the empty sequence nor any
sequence twice. -/
structure Tuned (m : Mode) : Prop where
  frozen : m.Frozen
  nonempty : [] ∉ m.sequences
  distinct : m.sequences.Nodup

/-- Keystrokes leave the bindings alone, and so a mode stays tuned. -/
theorem Tuned.of_pristine (h : m.Tuned) (hpristine : after.pristine = m.pristine) :
    after.Tuned := by
  have hstrokes : after.strokes = m.strokes := by
    rw [← strokes_pristine, hpristine, strokes_pristine]
  refine ⟨?_, ?_, ?_⟩
  · rw [← frozen_pristine, hpristine, frozen_pristine]
    exact h.frozen
  · rw [sequences, hstrokes]
    exact h.nonempty
  · rw [sequences, hstrokes]
    exact h.distinct

theorem tuned_of_isMap {α : Type} {b : Bindings α} (hfrozen : m.Frozen)
    (hstrokes : m.strokes = b.strokes) (hmap : b.IsMap) : m.Tuned := by
  have hsequences : m.sequences = b.sequences := by
    rw [sequences, hstrokes, b.map_sequence_strokes]
  refine ⟨hfrozen, ?_, ?_⟩
  · rw [hsequences]
    exact hmap.nonempty
  · rw [hsequences]
    exact hmap.distinct

theorem tuned_start (mode : EditingMode) (report : DeviceReport) : (start mode report).Tuned := by
  have hfrozen := frozen_start mode report
  cases mode with
  | emacs => exact tuned_of_isMap hfrozen rfl (Emacs.movable_defaults.remapped report).isMap
  | vi => exact tuned_of_isMap hfrozen rfl (Vi.movable_defaults.remapped report).isMap

/-! ## One more sequence -/

/-- Why a sequence cannot be bound. -/
def obstacle? (m : Mode) (sequence : Text) : Option BindingError :=
  if sequence = [] then some .empty
  else if sequence ∈ m.sequences then some (.duplicate (caretText sequence))
  else none

/-- The mode with one more entry in its table, and tries that were made anew. -/
def extend (m : Mode) (sequence : Text) (command : Command) : Mode :=
  match m with
  | emacs m =>
    emacs { m with
      table := .ofBindings ⟨m.table.bindings.entries ++ [(.ofSequence sequence, command)]⟩ }
  | vi m =>
    let table : Keymap Entries :=
      .ofBindings ⟨m.table.bindings.entries ++ [(.ofSequence sequence, [Vi.addedEntry command])]⟩
    vi { m with table := table, insertTrie := Vi.insertTrieOf table }

theorem obstacle?_bindings {α : Type} {b : Bindings α} (hstrokes : m.strokes = b.strokes) :
    b.obstacle? (.ofSequence sequence) = m.obstacle? sequence := by
  have hmem : (b.value? sequence).isSome = true ↔ sequence ∈ m.sequences := by
    rw [Bindings.isSome_value?_iff, sequences, hstrokes, b.map_sequence_strokes]
  rw [Bindings.obstacle?_eq, obstacle?, Stroke.sequence_ofSequence]
  simp only [hmem]

/-- **Binding a sequence** extends the mode, unless something is in the way. -/
theorem addCommand_eq (m : Mode) (sequence : Text) (command : Command) :
    m.addCommand sequence command =
      match m.obstacle? sequence with
      | some error => .error error
      | none => .ok (m.extend sequence command) := by
  cases m with
  | emacs m =>
    rw [addCommand, Emacs.addCommand, Keymap.bindSequence, Bindings.bindSequence, Bindings.bind,
      obstacle?_bindings (m := emacs m) rfl]
    cases (emacs m).obstacle? sequence <;> rfl
  | vi m =>
    rw [addCommand, Vi.addCommand, Keymap.bindSequence, Bindings.bindSequence, Bindings.bind,
      obstacle?_bindings (m := vi m) rfl]
    cases (vi m).obstacle? sequence <;> rfl

@[simp] theorem strokes_extend (m : Mode) (sequence : Text) (command : Command) :
    (m.extend sequence command).strokes = m.strokes ++ [.ofSequence sequence] := by
  cases m <;> exact List.map_append

@[simp] theorem isNarrow_extend (m : Mode) (sequence : Text) (command : Command) :
    (m.extend sequence command).isNarrow = m.isNarrow := by
  cases m <;> rfl

/-- Where text is typed, the sequence that was added means nothing. -/
theorem active_extend (m : Mode) (sequence : Text) (command : Command) :
    (m.extend sequence command).active =
      if m.isNarrow then m.active else m.active ++ [.ofSequence sequence] := by
  cases hnarrow : m.isNarrow with
  | false =>
    rw [active_of_not_narrow ((isNarrow_extend ..).trans hnarrow), strokes_extend,
      active_of_not_narrow hnarrow]
    rfl
  | true =>
    cases m with
    | emacs m => cases hnarrow
    | vi m =>
      have hstatus : m.status.takesText = true := hnarrow
      refine (if_pos hstatus).trans (Eq.trans ?_ (if_pos hstatus).symm)
      change ((m.table.bindings.entries ++ [_]).filter _).map _ = _
      rw [List.filter_append, List.map_append]
      exact List.append_nil _

theorem obstacle?_eq_none_iff :
    m.obstacle? sequence = none ↔ sequence ≠ [] ∧ sequence ∉ m.sequences := by
  rw [obstacle?]
  split
  · next hempty => simp [hempty]
  · next hne =>
    split
    · next hbound => simp [hbound]
    · next hfree => simp [hne, hfree]

theorem Tuned.extend (h : m.Tuned) (hfree : m.obstacle? sequence = none) (command : Command) :
    (m.extend sequence command).Tuned := by
  obtain ⟨hne, hnew⟩ := obstacle?_eq_none_iff.mp hfree
  have hsequences : (m.extend sequence command).sequences = m.sequences ++ [sequence] := by
    rw [sequences, strokes_extend, List.map_append]
    rfl
  refine ⟨?_, ?_, ?_⟩
  · cases m with
    | emacs m => rfl
    | vi m => exact ⟨rfl, rfl⟩
  · rw [hsequences, List.mem_append, List.mem_singleton]
    exact not_or.mpr ⟨h.nonempty, hne.symm⟩
  · rw [hsequences, List.nodup_append_comm]
    exact List.nodup_cons.mpr ⟨hnew, h.distinct⟩

/-- **Every bound sequence still stands for itself** when another one is bound, and that one does,
too. -/
theorem Tuned.takesAlone_extend (h : m.Tuned) (hfree : m.obstacle? sequence = none)
    (command : Command) :
    (∀ s ∈ m.sequences, ∃ stroke, stroke.sequence = s ∧ m.fullTrie.TakesAlone s stroke ∧
      (m.extend sequence command).fullTrie.TakesAlone s stroke) ∧
    (m.extend sequence command).fullTrie.TakesAlone sequence (.ofSequence sequence) := by
  obtain ⟨hne, hnew⟩ := obstacle?_eq_none_iff.mp hfree
  rw [fullTrie_eq h.frozen, fullTrie_eq (h.extend hfree command).frozen, strokes_extend]
  refine ⟨?_, Trie.takesAlone_concat_self _ hne⟩
  intro s hs
  exact Trie.takesAlone_concat hs (ne_of_mem_of_not_mem hs h.nonempty) hnew

/-- Those that input is cut by now stand for themselves now, and still do. -/
theorem Tuned.takesAlone_keys_extend (h : m.Tuned) (hfree : m.obstacle? sequence = none)
    (command : Command) {s : Text} (hs : s ∈ m.active.map Stroke.sequence) :
    ∃ stroke, stroke.sequence = s ∧ m.keys.TakesAlone s stroke ∧
      (m.extend sequence command).keys.TakesAlone s stroke := by
  have hbound : s ∈ m.sequences := (m.active_sublist.map Stroke.sequence).subset hs
  have hne : s ≠ [] := ne_of_mem_of_not_mem hbound h.nonempty
  rw [keys_eq_ofList h.frozen, keys_eq_ofList (h.extend hfree command).frozen, active_extend]
  split
  · obtain ⟨stroke, hlatest⟩ := Option.isSome_iff_exists.mp (Trie.isSome_latest?_iff.mpr hs)
    have htakes := Trie.takesAlone_of_latest? hne hlatest
    exact ⟨stroke, (Trie.sequence_of_latest? hlatest).2, htakes, htakes⟩
  · have hnew : sequence ∉ m.active.map Stroke.sequence := fun hmem =>
      (obstacle?_eq_none_iff.mp hfree).2 ((m.active_sublist.map Stroke.sequence).subset hmem)
    exact Trie.takesAlone_concat hs hne hnew

end Mode

end PromptLine
