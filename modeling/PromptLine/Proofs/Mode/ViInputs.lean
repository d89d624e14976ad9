import PromptLine.Proofs.Mode.Bindings
import PromptLine.Proofs.Mode.Operators

/-!
# All that can be asked of the modal dispatcher

Keys are typed, actions in focus are applied, sequences are bound and lines end, in any order.  An
`Input` is one of these, and a dispatcher is reached if some inputs lead to it from the start, on
whatever device.

A device moves the bindings of some keys, and a configuration adds bindings, and neither takes the
place of a binding that is there.  So bindings are `Adapted` if such changes lead to them from the
defaults.  Every entry was then made with the defaults, for a key of the device's own, or for an
added sequence, and the keys that a device cannot move mean what they usually mean.
-/

namespace PromptLine

/-- What a device makes of a table has a property if the table has it and each change keeps it: a
key that can move is moved, or the key for deleting to the end of the line is bound. -/
theorem DeviceReport.remap_induction {α : Type} {P : Bindings α → Prop} (report : DeviceReport)
    {killToEol : Option α} {b : Bindings α} (hbegin : P b)
    (hmove : ∀ b, P b → ∀ entry ∈ DeviceKey.movable, ∀ new,
      P (b.attempt (.rebind (.ofKey entry.2) new)))
    (hkill : ∀ b, P b → ∀ value ∈ killToEol, ∀ sequence,
      P (b.attempt (.bindSequence sequence value))) : P (report.remap killToEol b) := by
  have hmoved : P (DeviceKey.movable.foldl report.moveKey b) := by
    refine List.foldlRecOn DeviceKey.movable report.moveKey hbegin fun b h entry hmovable => ?_
    rw [moveKey]
    split
    · exact h
    · next sequence _ => exact hmove b h entry hmovable ⟨sequence, entry.2.label⟩
  unfold remap
  dsimp only
  split
  · next sequence value _ => exact hkill _ hmoved value rfl sequence
  · exact hmoved

namespace Vi

/-! ## Adapted bindings -/

/-- A change that a device or a configuration makes. -/
inductive Adapts : Bindings.Change Entries → Prop
  | moves {entry : DeviceKey × Key} (movable : entry ∈ DeviceKey.movable) (new : Stroke) :
      Adapts (.rebind (.ofKey entry.2) new)
  | kills (sequence : Text) : Adapts (.bindSequence sequence killToEol)
  | adds (sequence : Text) (command : Command) :
      Adapts (.bindSequence sequence [addedEntry command])

/-- Bindings that a device and a configuration can make of the defaults. -/
inductive Adapted : Bindings Entries → Prop
  | usual : Adapted defaults
  | attempt {b : Bindings Entries} {c : Bindings.Change Entries} (adapted : Adapted b)
      (adapts : Adapts c) : Adapted (b.attempt c)

set_option maxRecDepth 2000 in
theorem isMap_defaults : defaults.IsMap where
  nonempty := mt mem_sequences_defaults.mp (by decide)
  distinct := nodup_sequences_defaults

namespace Adapted

variable {b : Bindings Entries}

theorem isMap (h : Adapted b) : b.IsMap := by
  induction h with
  | usual => exact isMap_defaults
  | attempt _ _ ih => exact ih.attempt _

/-- The keys that a device cannot move mean what they usually mean. -/
theorem value?_of_fixed (h : Adapted b) {s : Text} {entries : Entries}
    (hvalue : Vi.defaults.value? s = some entries)
    (hfixed : ∀ entry ∈ DeviceKey.movable, entry.2.sequence ≠ s) : b.value? s = some entries := by
  induction h with
  | usual => exact hvalue
  | attempt hadapted hadapts ih =>
    rw [hadapted.isMap.value?_attempt]
    refine Bindings.Change.attempt_of_some ih fun old new hrebind => ?_
    cases hadapts with
    | moves hmovable _ =>
      cases hrebind
      exact hfixed _ hmovable
    | kills => cases hrebind
    | adds => cases hrebind

/-- A key that no device can move keeps its usual entries. -/
theorem entryOf_of_usual (h : Adapted b) {status : Status} {s : Text} {entry : Entry}
    (hentry : entryOf Vi.defaults status s = some entry)
    (hfixed : ∀ entry ∈ DeviceKey.movable, entry.2.sequence ≠ s) :
    entryOf b status s = some entry := by
  obtain ⟨entries, hvalue, hfor⟩ := Option.bind_eq_some_iff.mp hentry
  exact Option.bind_eq_some_iff.mpr ⟨entries, h.value?_of_fixed hvalue hfixed, hfor⟩

theorem remap (report : DeviceReport) : Adapted (report.remap (some killToEol) Vi.defaults) := by
  refine report.remap_induction .usual
    (fun _ h _ hmovable new => h.attempt (.moves hmovable new)) ?_
  rintro _ h value hvalue sequence
  cases hvalue
  exact h.attempt (.kills sequence)

/-- **What holds of all entries however they were made.** -/
theorem all {P : Entries → Prop} (h : Adapted b) (husual : Vi.defaults.All P) (hkill : P killToEol)
    (hadded : ∀ command, P [addedEntry command]) : b.All P := by
  induction h with
  | usual => exact husual
  | attempt _ hadapts ih =>
    refine ih.attempt fun value hvalue => ?_
    cases hadapts with
    | moves => cases hvalue
    | kills =>
      cases hvalue
      exact hkill
    | adds sequence command =>
      cases hvalue
      exact hadded command

end Adapted

/-! ## The statuses that entries lead to -/

/-- The statuses that a dispatcher can be in. -/
def statuses : List Status :=
  [.edit, .command, .delete, .change, .yank, .replace, .upCase, .downCase]

/-- What is bound leads to one of them, or does the last change again. -/
def LeadsOn (entries : Entries) : Prop :=
  ∀ entry ∈ entries, entry.next ∈ statuses ∨ entry.next = .again

set_option maxRecDepth 2000 in
theorem Adapted.leadsOn {b : Bindings Entries} (h : Adapted b) : b.All LeadsOn := by
  have husual := forall_entries_defaults
    (P := fun _ entry => entry.next ∈ statuses ∨ entry.next = .again) (by decide)
  have hsingle : ∀ {command : Command} {required next : Status} {recording : Recording},
      next ∈ statuses → LeadsOn [⟨command, required, next, recording⟩] := by
    intro command required next recording hnext entry hentry
    rw [List.mem_singleton.mp hentry]
    exact .inl hnext
  exact h.all husual (hsingle (by decide)) fun _ => hsingle (by decide)

theorem Adapted.next_mem {b : Bindings Entries} (h : Adapted b) {status : Status}
    {sequence : Text} {entry : Entry} (hentry : entryOf b status sequence = some entry)
    (honce : entry.next ≠ .again) : entry.next ∈ statuses := by
  obtain ⟨-, bound, entries, hbound, -, hmem⟩ := exists_of_entryOf hentry
  exact (h.leadsOn (bound, entries) hbound entry hmem).resolve_right honce

/-! ## Inputs -/

/-- What can be asked of a dispatcher. -/
inductive Input
  | key (stroke : Stroke)
  /-- The action in focus, if there is one, is applied. -/
  | apply (setting : Setting) (d : Desk)
  | bind (sequence : Text) (command : Command)
  | reset

variable {m : Vi}

/-- Does what is asked.  A binding that is refused changes nothing. -/
def perform (m : Vi) : Input → Vi × Option Action
  | .key stroke => m.parse stroke
  | .apply setting d => ({ m with focus := m.focus.map fun f => (f.apply setting d).1 }, none)
  | .bind sequence command =>
    match m.addCommand sequence command with
    | .ok after => (after, none)
    | .error _ => (m, none)
  | .reset => (m.reset, none)

/-- The dispatcher that inputs lead to. -/
def performAll (m : Vi) (inputs : List Input) : Vi :=
  inputs.foldl (fun m input => (m.perform input).1) m

/-- The actions that inputs lead to. -/
def answers (m : Vi) : List Input → List (Option Action)
  | [] => []
  | input :: rest => (m.perform input).2 :: (m.perform input).1.answers rest

/-- Inputs lead to the dispatcher from the start, on some device. -/
def Reached (m : Vi) : Prop := ∃ report inputs, (start report).performAll inputs = m

theorem Reached.perform (h : m.Reached) (input : Input) : (m.perform input).1.Reached := by
  obtain ⟨report, inputs, rfl⟩ := h
  exact ⟨report, inputs ++ [input], List.foldl_append⟩

theorem table_parse (m : Vi) (stroke : Stroke) : (m.parse stroke).1.table = m.table := by
  have htable := congrArg table (m.pristine_parse stroke)
  exact htable

/-- Binding a sequence leaves all but the bindings alone. -/
theorem perform_bind (m : Vi) (sequence : Text) (command : Command) :
    ∃ table trie, m.perform (.bind sequence command) =
      ({ m with table := table, insertTrie := trie }, none) := by
  rw [perform, addCommand]
  cases m.table.bindSequence sequence [addedEntry command] with
  | error => exact ⟨m.table, m.insertTrie, rfl⟩
  | ok table => exact ⟨table, insertTrieOf table, rfl⟩

theorem bindings_perform_bind (m : Vi) (sequence : Text) (command : Command) :
    (m.perform (.bind sequence command)).1.table.bindings =
      m.table.bindings.attempt (.bindSequence sequence [addedEntry command]) := by
  rw [perform, addCommand, Keymap.bindSequence, Bindings.attempt, Bindings.change]
  cases m.table.bindings.bindSequence sequence [addedEntry command] <;> rfl

theorem adapted_perform (h : Adapted m.table.bindings) (input : Input) :
    Adapted (m.perform input).1.table.bindings := by
  cases input with
  | key stroke =>
    rw [perform, table_parse]
    exact h
  | apply => exact h
  | bind sequence command =>
    rw [bindings_perform_bind]
    exact h.attempt (.adds sequence command)
  | reset => exact h

theorem adapted_performAll (h : Adapted m.table.bindings) (inputs : List Input) :
    Adapted (m.performAll inputs).table.bindings := by
  induction inputs generalizing m with
  | nil => exact h
  | cons input rest ih => exact ih (adapted_perform h input)

theorem Reached.adapted (h : m.Reached) : Adapted m.table.bindings := by
  obtain ⟨report, inputs, rfl⟩ := h
  exact adapted_performAll (Adapted.remap report) inputs

end Vi

end PromptLine
