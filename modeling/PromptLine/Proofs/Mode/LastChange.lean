import PromptLine.Proofs.Mode.Counts

/-!
# The change that can be done again

The modal dispatcher remembers one action, which the repeat key does again.  It should be the last
one that changed the line by a command: a character that was replaced, text that an operator took
away, or a case that was toggled and text that was put in.  These actions are the *changes*.

Which actions are remembered is written into the table, entry by entry.  With the usual entries it
is the changes, outside of text that is typed, and nothing else; so the remembered action is the
last change among all answers.  Bindings that are added are never remembered, which spoils only one
half of this: what is remembered is a change still.
-/

namespace PromptLine

/-- The action changes the line by a command that is worth repeating. -/
def Action.isChange : Action → Bool
  | replaceChar _ => true
  | range r => r.operation.removesText
  | plain command _ => command ∈ [.viToggleCase, .viPasteAfter, .viPasteBefore]
  | _ => false

/-- How often an action asks for something does not matter. -/
theorem Action.isChange_ofCommand (command : Command) (operation : Status) (count : Nat) :
    (ofCommand command operation count).isChange = (ofCommand command operation 1).isChange := by
  rw [ofCommand, ofCommand]
  dsimp only
  split
  · rfl
  · split <;> rfl

namespace Vi

variable {m : Vi} {stroke : Stroke}

/-! ## What entries remember -/

/-- What the entry makes is a change, and one that was not typed as text. -/
def changes (entry : Entry) : Bool :=
  entry.required != .edit &&
    (Action.ofCommand entry.command entry.required.operation 1).isChange

/-- The entries remember nothing but changes. -/
def RemembersOnlyChanges (entries : Entries) : Prop :=
  ∀ entry ∈ entries, entry.isRecorded entry.required = true → changes entry = true

/-- The entries remember the changes, and nothing else. -/
def RemembersChanges (entries : Entries) : Prop :=
  ∀ entry ∈ entries, entry.isRecorded entry.required = changes entry

theorem RemembersChanges.only {entries : Entries} (h : RemembersChanges entries) :
    RemembersOnlyChanges entries := fun entry hentry hrecorded => h entry hentry ▸ hrecorded

set_option maxRecDepth 2000 in
theorem remembersChanges_defaults : defaults.All RemembersChanges := by
  have hall := forall_entries_defaults
    (P := fun _ entry => entry.isRecorded entry.required = changes entry) (by decide)
  exact hall

theorem remembersChanges_killToEol : RemembersChanges killToEol := by
  unfold RemembersChanges
  decide

/-- **On every device the changes are remembered, and nothing else.** -/
theorem remembersChanges_remap (report : DeviceReport) :
    (report.remap (some killToEol) defaults).All RemembersChanges := by
  refine report.remap_induction remembersChanges_defaults ?_ ?_
  · intro b h entry _ new
    exact h.attempt fun value hvalue => absurd hvalue (Option.some_ne_none value).symm
  · rintro b h value hvalue sequence
    refine h.attempt fun bound hbound => ?_
    cases hvalue
    cases hbound
    exact remembersChanges_killToEol

/-- An added binding remembers nothing. -/
theorem isRecorded_addedEntry (command : Command) :
    (addedEntry command).isRecorded .command = false := by
  rw [addedEntry, Entry.isRecorded]
  split
  · next halways => split at halways <;> cases halways
  · rfl
  · rfl

/-- **Whatever is bound, nothing but changes is remembered.** -/
theorem Adapted.remembersOnlyChanges {b : Bindings Entries} (h : Adapted b) :
    b.All RemembersOnlyChanges := by
  have husual : defaults.All RemembersOnlyChanges :=
    fun binding hbinding => (remembersChanges_defaults binding hbinding).only
  refine h.all husual remembersChanges_killToEol.only fun command entry hentry hrecorded => ?_
  rw [List.mem_singleton.mp hentry] at hrecorded
  exact absurd hrecorded (Bool.eq_false_iff.mp (isRecorded_addedEntry command))

/-- A property of all entries is one of the entry that is found. -/
theorem exists_entries_of_entryOf {P : Entries → Prop} {b : Bindings Entries} (h : b.All P)
    {status : Status} {sequence : Text} {entry : Entry}
    (hentry : entryOf b status sequence = some entry) :
    entry.required = status ∧ ∃ entries, P entries ∧ entry ∈ entries := by
  obtain ⟨hrequired, bound, entries, hbound, -, hmem⟩ := exists_of_entryOf hentry
  exact ⟨hrequired, entries, h (bound, entries) hbound, hmem⟩

/-! ## What is remembered after one input -/

/-- The change that an answer is, unless text is being typed. -/
def change? (m : Vi) (action? : Option Action) : Option Action :=
  if m.status = .edit then none else action?.filter Action.isChange

theorem change?_eq_some {action? : Option Action} {action : Action} :
    m.change? action? = some action ↔
      m.status ≠ .edit ∧ action? = some action ∧ action.isChange = true := by
  rw [change?]
  split
  · next hedit => simp [hedit]
  · next hcommand => simp [hcommand, Option.filter_eq_some_iff]

/-- What an entry makes is a change if the entry changes something. -/
theorem change?_of_entry {entry : Entry} (hrequired : entry.required = m.status) (count : Nat) :
    (m.change? (some (Action.ofCommand entry.command m.status.operation count))).isSome =
      changes entry := by
  rw [change?, changes, hrequired, ← Action.isChange_ofCommand _ _ count]
  by_cases hedit : m.status = .edit
  · rw [if_pos hedit, hedit]
    rfl
  · rw [if_neg hedit, bne_iff_ne.mpr hedit, Bool.true_and, Option.filter_some]
    cases (Action.ofCommand entry.command m.status.operation count).isChange <;> rfl

/-- What was remembered before is remembered still, or the answer was a change and is remembered
instead. -/
def Replaces (m after : Vi) (action? : Option Action) : Prop :=
  after.lastChange = m.lastChange ∨
    ∃ action, m.change? action? = some action ∧ after.lastChange = some action

section Keys

variable {after : Vi} {action? : Option Action}

theorem replaces_followed (hbindings : m.table.bindings.All RemembersOnlyChanges) {entry : Entry}
    (hentry : entryOf m.table.bindings m.status stroke.sequence = some entry)
    (h : Followed m entry after action?) : m.Replaces after action? := by
  cases h with
  | focused => exact .inl rfl
  | repeated => exact .inl rfl
  | @acted counted action count plain makes counts once =>
    obtain ⟨hrequired, entries, hremembers, hmem⟩ := exists_entries_of_entryOf hbindings hentry
    have hchange := change?_of_entry hrequired count
    rw [← makes] at hchange
    by_cases hrecorded : entry.isRecorded m.status = true
    · rw [hremembers entry hmem (hrequired ▸ hrecorded)] at hchange
      obtain ⟨other, hother⟩ := Option.isSome_iff_exists.mp hchange
      obtain ⟨-, hsame, -⟩ := change?_eq_some.mp hother
      exact .inr ⟨other, hother, (if_pos hrecorded).trans hsame⟩
    · exact .inl (if_neg hrecorded)

/-- **Nothing but a change is remembered.** -/
theorem replaces_parsed (hbindings : m.table.bindings.All RemembersOnlyChanges)
    (h : Parsed m stroke after action?) : m.Replaces after action? := by
  cases h with
  | routed => exact .inl rfl
  | resolved _ resolves =>
    cases resolves with
    | counted => exact .inl rfl
    | @replaced c status =>
      have hcommand : m.status ≠ .edit := by
        intro hedit
        cases hedit.symm.trans status
      exact .inr ⟨.replaceChar c, change?_eq_some.mpr ⟨hcommand, rfl, rfl⟩, rfl⟩
    | refused => exact .inl rfl
    | bound _ _ found follows =>
      exact replaces_followed (m := { m with focus := none }) hbindings found follows
    | typed => exact .inl rfl
    | lost => exact .inl rfl

theorem lastChange_of_followed (hbindings : m.table.bindings.All RemembersChanges) {entry : Entry}
    (hentry : entryOf m.table.bindings m.status stroke.sequence = some entry)
    (h : Followed m entry after action?) {change : Action}
    (hchange : m.change? action? = some change) : after.lastChange = some change := by
  obtain ⟨-, haction, hisChange⟩ := change?_eq_some.mp hchange
  cases h with
  | focused =>
    cases haction
    cases hisChange
  | repeated => exact haction
  | @acted counted action count plain makes counts once =>
    obtain ⟨hrequired, entries, hremembers, hmem⟩ := exists_entries_of_entryOf hbindings hentry
    have hrecorded : entry.isRecorded m.status = true := by
      rw [← hrequired, hremembers entry hmem, ← change?_of_entry hrequired count, ← makes, hchange]
      rfl
    exact (if_pos hrecorded).trans haction

/-- **With the usual entries every change is remembered.** -/
theorem lastChange_of_parsed (hbindings : m.table.bindings.All RemembersChanges)
    (h : Parsed m stroke after action?) {change : Action}
    (hchange : m.change? action? = some change) : after.lastChange = some change := by
  obtain ⟨hcommand, haction, hisChange⟩ := change?_eq_some.mp hchange
  cases h with
  | routed =>
    cases haction
    cases hisChange
  | resolved _ resolves =>
    cases resolves with
    | counted => cases haction
    | replaced => exact haction
    | refused => cases haction
    | bound _ _ found follows =>
      exact lastChange_of_followed (m := { m with focus := none }) hbindings found follows hchange
    | typed status => exact absurd status hcommand
    | lost => cases haction

end Keys

/-- What is remembered after an input: the change that it led to, or else what was remembered
before. -/
theorem lastChange_perform (hbindings : m.table.bindings.All RemembersChanges) {input : Input}
    (hbind : ∀ sequence command, input ≠ .bind sequence command) :
    (m.perform input).1.lastChange = (m.change? (m.perform input).2).or m.lastChange := by
  have hnothing : m.change? none = none := by
    rw [change?, Option.filter_none, ite_self]
  cases input with
  | key stroke =>
    have hparsed := m.parsed stroke
    have hreplaces := replaces_parsed (fun b hb => (hbindings b hb).only) hparsed
    rw [perform]
    cases hchange : m.change? (m.parse stroke).2 with
    | some change => exact lastChange_of_parsed hbindings hparsed hchange
    | none =>
      refine hreplaces.resolve_right ?_
      rintro ⟨action, haction, -⟩
      cases hchange.symm.trans haction
  | apply =>
    rw [perform, hnothing]
    rfl
  | bind sequence command => exact absurd rfl (hbind sequence command)
  | reset =>
    rw [perform, hnothing]
    rfl

/-! ## What is remembered after a run -/

/-- The changes that inputs lead to. -/
def changesOf (m : Vi) : List Input → List Action
  | [] => []
  | input :: rest =>
    (m.change? (m.perform input).2).toList ++ (m.perform input).1.changesOf rest

theorem bindings_perform {input : Input}
    (hbind : ∀ sequence command, input ≠ .bind sequence command) :
    (m.perform input).1.table.bindings = m.table.bindings := by
  cases input with
  | key stroke => rw [perform, table_parse]
  | apply => rfl
  | bind sequence command => exact absurd rfl (hbind sequence command)
  | reset => rfl

theorem lastChange_performAll (hbindings : m.table.bindings.All RemembersChanges)
    {inputs : List Input} (hbind : ∀ sequence command, Input.bind sequence command ∉ inputs) :
    (m.performAll inputs).lastChange = (m.changesOf inputs).getLast?.or m.lastChange := by
  induction inputs generalizing m with
  | nil => rfl
  | cons input rest ih =>
    have hinput : ∀ sequence command, input ≠ .bind sequence command := by
      rintro sequence command rfl
      exact hbind sequence command List.mem_cons_self
    have hrest : ∀ sequence command, Input.bind sequence command ∉ rest :=
      fun sequence command hmem => hbind sequence command (List.mem_cons_of_mem input hmem)
    have hafter : (m.perform input).1.table.bindings.All RemembersChanges := by
      rwa [bindings_perform hinput]
    calc ((m.perform input).1.performAll rest).lastChange
        = ((m.perform input).1.changesOf rest).getLast?.or (m.perform input).1.lastChange :=
          ih hafter hrest
      _ = ((m.perform input).1.changesOf rest).getLast?.or
            ((m.change? (m.perform input).2).or m.lastChange) := by
          rw [lastChange_perform hbindings hinput]
      _ = (m.changesOf (input :: rest)).getLast?.or m.lastChange := by
          rw [changesOf, List.getLast?_append, Option.or_assoc]
          cases m.change? (m.perform input).2 <;> rfl

theorem isChange_lastChange_perform (hadapted : Adapted m.table.bindings)
    (hlast : ∀ action ∈ m.lastChange, action.isChange = true) (input : Input) :
    ∀ action ∈ (m.perform input).1.lastChange, action.isChange = true := by
  cases input with
  | key stroke =>
    rw [perform]
    rcases replaces_parsed hadapted.remembersOnlyChanges (m.parsed stroke) with hsame | hchange
    · rwa [hsame]
    · obtain ⟨change, hchange, hafter⟩ := hchange
      rw [hafter]
      rintro action haction
      cases haction
      exact (change?_eq_some.mp hchange).2.2
  | apply => exact hlast
  | bind sequence command =>
    obtain ⟨table, trie, hbind⟩ := m.perform_bind sequence command
    rw [hbind]
    exact hlast
  | reset => exact hlast

/-- **Whatever is asked, what is remembered is a change.** -/
theorem Reached.isChange_lastChange (h : m.Reached) :
    ∀ action ∈ m.lastChange, action.isChange = true := by
  have hrun : ∀ (inputs : List Input) (m : Vi), Adapted m.table.bindings →
      (∀ action ∈ m.lastChange, action.isChange = true) →
      ∀ action ∈ (m.performAll inputs).lastChange, action.isChange = true := by
    intro inputs
    induction inputs with
    | nil => exact fun _ _ hlast => hlast
    | cons input rest ih =>
      intro m hadapted hlast
      exact ih _ (adapted_perform hadapted input)
        (isChange_lastChange_perform hadapted hlast input)
  obtain ⟨report, inputs, rfl⟩ := h
  exact hrun inputs _ (Adapted.remap report) fun _ haction => absurd haction (Option.not_mem_none _)

/-! ## Doing it again -/

/-- The repeat key leads to what is remembered. -/
theorem parse_repeat (hadapted : Adapted m.table.bindings) (hstatus : m.status = .command)
    (hfree : m.focus.any Focus.isHeld = false) (hstroke : stroke.sequence = ['.']) :
    m.parse stroke = ({ m.forgetCounts with focus := none }, m.lastChange) := by
  have hdigit : countDigit? { m with focus := none } stroke = none :=
    countDigit?_of_single hstroke rfl
  have hentry : entryOf m.table.bindings m.status stroke.sequence =
      some ⟨.viRepeat, .command, .again, .never⟩ := by
    rw [hstatus, hstroke]
    refine hadapted.entryOf_of_usual ?_ (by decide)
    rw [entryOf_defaults]
    decide
  have hreplace : m.status ≠ .replace := by
    rw [hstatus]
    decide
  rw [parse_of_free hfree, resolve_of_entry (m := { m with focus := none }) hdigit hreplace hentry]
  rfl

/-- **What is done again is the last change.**  Let a dispatcher be built for any device, let keys
be typed, actions in focus be applied and lines end, in any order, and let no sequence be bound.  Of
all answers that were given where no text was typed the remembered action is the last that is a
change, if there is one.  In command status the repeat key leads to this action, and of all that the
dispatcher holds it takes the counts only. -/
theorem lastChange_is_last_of_changes (report : DeviceReport) (inputs : List Input)
    (hbind : ∀ sequence command, Input.bind sequence command ∉ inputs) :
    let m := (start report).performAll inputs
    m.lastChange = ((start report).changesOf inputs).getLast? ∧
      (∀ action ∈ m.lastChange, action.isChange = true) ∧
      (m.status = .command → m.focus.any Focus.isHeld = false →
        ∀ stroke : Stroke, stroke.sequence = ['.'] →
          m.parse stroke = ({ m.forgetCounts with focus := none }, m.lastChange)) := by
  intro m
  have hlast : m.lastChange = ((start report).changesOf inputs).getLast? := by
    have hrun := lastChange_performAll (m := start report) (remembersChanges_remap report) hbind
    rwa [show (start report).lastChange = none from rfl, Option.or_none] at hrun
  have hreached : m.Reached := ⟨report, inputs, rfl⟩
  have hadapted := hreached.adapted
  exact ⟨hlast, hreached.isChange_lastChange,
    fun hstatus hfree _ hstroke => parse_repeat hadapted hstatus hfree hstroke⟩

/-- After `2dw` two words can be deleted again, and still after `yw` and an undo. -/
theorem lastChange_survives_yank :
    let inputs := Input.key (.ofKey .escape) ::
      ['2', 'd', 'w', 'y', 'w', 'u'].map fun c => .key (.ofChar c)
    let m := (start .ansi).performAll inputs
    let deletion := Action.range ⟨.viForwardWord, .nextWord false, .delete, 2⟩
    (∀ sequence command, Input.bind sequence command ∉ inputs) ∧
      m.status = .command ∧ m.focus.any Focus.isHeld = false ∧
      ((start .ansi).changesOf inputs).getLast? = some deletion ∧
      m.parse (.ofChar '.') = ({ m.forgetCounts with focus := none }, some deletion) := by
  intro inputs m deletion
  have hbind : ∀ sequence command, Input.bind sequence command ∉ inputs := by
    simp [inputs]
  obtain ⟨hlast, -, hrepeat⟩ := lastChange_is_last_of_changes .ansi inputs hbind
  have hstate : m.status = .command ∧ m.focus.any Focus.isHeld = false ∧
      ((start .ansi).changesOf inputs).getLast? = some deletion := by
    decide +kernel
  obtain ⟨hstatus, hfree, hchanges⟩ := hstate
  refine ⟨hbind, hstatus, hfree, hchanges, ?_⟩
  rw [hrepeat hstatus hfree (.ofChar '.') rfl, hlast, hchanges]

end Vi

end PromptLine
