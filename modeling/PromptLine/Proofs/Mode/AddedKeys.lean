import PromptLine.Proofs.Mode.LastChange
import PromptLine.Proofs.Mode.TextEntry

/-!
# Keys that are bound later

A binding that is added names a command and nothing else.  It works in command status: it leads to
the action of the command, as often as the counts ask for, and command status stays.

A usual entry says more than that.  It says which status comes next, and whether the action is
remembered, and neither can be guessed from the command's name alone.  So an added key and a usual
key of the same command do the same exactly where the usual entry stays in command status as well
and would remember nothing new, and where the usual key is not a digit of a count.  The commands
that begin to insert, the operators, the one that does the last change again and all changes are
left out by this: they are carried out, but what should come of them later does not.
-/

namespace PromptLine

/-- The action of a command that takes the focus. -/
theorem Action.ofCommand_of_focus {command : Command} {f : Focus}
    (h : Focus.ofCommand? command = some f) (operation : Status) (count : Nat) :
    ofCommand command operation count = .focus f := by
  rw [ofCommand, h]

namespace Vi

variable {m after : Vi} {stroke key : Stroke} {entry : Entry} {command : Command} {sequence : Text}

/-! ## What adding a binding changes -/

/-- A sequence that is bound was bound to nothing before, and every other one means what it
meant. -/
theorem value?_of_addCommand (h : m.addCommand sequence command = .ok after) :
    m.table.bindings.value? sequence = none ∧
      after.table.bindings.value? =
        Function.update m.table.bindings.value? sequence (some [addedEntry command]) := by
  rw [addCommand] at h
  obtain ⟨table, htable, rfl⟩ := exists_ok_of_map h
  rw [Keymap.bindSequence] at htable
  obtain ⟨b, hbind, rfl⟩ := exists_ok_of_map htable
  obtain ⟨hfree, rfl⟩ := Bindings.eq_of_bind hbind
  obtain ⟨-, hnew⟩ := Bindings.obstacle?_eq_none_iff.mp hfree
  rw [← Bindings.isSome_value?_iff, Option.not_isSome_iff_eq_none] at hnew
  exact ⟨hnew, Bindings.value?_append hfree _⟩

/-- What is bound if nothing is in the way. -/
theorem addCommand_eq_ok (h : (m.addCommand sequence command).toOption.isSome = true) :
    m.addCommand sequence command = .ok (m.perform (.bind sequence command)).1 := by
  rw [perform]
  cases hadded : m.addCommand sequence command with
  | ok after => rfl
  | error error =>
    rw [hadded] at h
    cases h

/-- The sequence that was bound has the added entry. -/
theorem entryOf_addCommand_self (h : m.addCommand sequence command = .ok after) :
    entryOf after.table.bindings .command sequence = some (addedEntry command) := by
  obtain ⟨-, hvalue⟩ := value?_of_addCommand h
  change (after.table.bindings.value? sequence).bind _ = _
  rw [hvalue, Function.update_self]
  rfl

/-- An entry that was there before is there still. -/
theorem entryOf_addCommand (h : m.addCommand sequence command = .ok after) {status : Status}
    {other : Text} (hentry : entryOf m.table.bindings status other = some entry) :
    entryOf after.table.bindings status other = some entry := by
  obtain ⟨hnone, hvalue⟩ := value?_of_addCommand h
  have hother : other ≠ sequence := by
    rintro rfl
    obtain ⟨entries, hentries, -⟩ := Option.bind_eq_some_iff.mp hentry
    cases hnone.symm.trans hentries
  change (after.table.bindings.value? other).bind _ = _
  rw [hvalue, Function.update_of_ne hother]
  exact hentry

/-! ## Entries that stay in command status -/

/-- The entry takes the focus, or stays in command status. -/
def Stays (entry : Entry) : Prop := entry.command.takesFocus = true ∨ entry.next = .command

theorem stays_addedEntry (command : Command) : Stays (addedEntry command) := .inr rfl

/-- What an entry that stays makes of the dispatcher. -/
def stay (m : Vi) (entry : Entry) : Vi :=
  { m.forgetCounts with
    focus := Focus.ofCommand? entry.command
    lastChange :=
      if entry.command.takesFocus = false ∧ entry.recording = .always then
        some (Action.ofCommand entry.command .move m.totalCount)
      else m.lastChange }

theorem follow_of_stays (hstatus : m.status = .command) (hfocus : m.focus = none)
    (h : Stays entry) :
    m.follow entry =
      (m.stay entry, some (Action.ofCommand entry.command .move m.totalCount)) := by
  obtain ⟨table, trie, status, last, count, operatorCount, focus⟩ := m
  obtain rfl : status = .command := hstatus
  obtain rfl : focus = none := hfocus
  obtain ⟨command, required, next, recording⟩ := entry
  rw [follow, stay]
  cases hcommand : Focus.ofCommand? command with
  | some f =>
    have htakes : command.takesFocus = true := by
      rw [← Focus.isSome_ofCommand?, hcommand]
      rfl
    simp only [htakes, if_true, Action.ofCommand_of_focus hcommand]
    rfl
  | none =>
    have htakes : command.takesFocus = false := by
      rw [← Focus.isSome_ofCommand?, hcommand]
      rfl
    obtain rfl : next = .command := h.resolve_left (Bool.eq_false_iff.mp htakes)
    simp only [htakes]
    cases recording <;> rfl

/-- A key with an entry that stays. -/
theorem parse_of_stays (hstatus : m.status = .command) (hfree : m.focus.any Focus.isHeld = false)
    (hdigit : m.countDigit? stroke = none)
    (hentry : entryOf m.table.bindings .command stroke.sequence = some entry) (h : Stays entry) :
    m.parse stroke =
      (m.stay entry, some (Action.ofCommand entry.command .move m.totalCount)) := by
  have hreplace : m.status ≠ .replace := by
    rw [hstatus]
    decide
  rw [parse_of_free hfree, resolve_of_entry (m := { m with focus := none }) hdigit hreplace
    (hstatus ▸ hentry), follow_of_stays (m := { m with focus := none }) hstatus rfl h]
  rfl

/-- **What an added key does.**  It leads to the action of its command and forgets the counts, and
neither the status nor the remembered change is another one. -/
theorem parse_added (hstatus : m.status = .command) (hfree : m.focus.any Focus.isHeld = false)
    (hdigit : m.countDigit? stroke = none)
    (hentry : entryOf m.table.bindings .command stroke.sequence = some (addedEntry command)) :
    m.parse stroke =
      ({ m.forgetCounts with focus := Focus.ofCommand? command },
        some (Action.ofCommand command .move m.totalCount)) := by
  have hrecording : (addedEntry command).recording ≠ .always := by
    rw [addedEntry]
    dsimp only
    split <;> decide
  rw [parse_of_stays hstatus hfree hdigit hentry (stays_addedEntry command), stay,
    if_neg fun h => hrecording h.2]
  rfl

/-! ## Entries that do not -/

set_option maxRecDepth 2000 in
/-- Only the command that does the last change again is bound so that it does. -/
theorem Adapted.command_of_again {b : Bindings Entries} (h : Adapted b) :
    b.All fun entries => ∀ entry ∈ entries, entry.next = .again → entry.command = .viRepeat := by
  have husual := forall_entries_defaults
    (P := fun _ entry => entry.next = .again → entry.command = .viRepeat) (by decide)
  refine h.all husual (by decide) fun command entry hentry hagain => ?_
  rw [List.mem_singleton.mp hentry] at hagain
  cases hagain

/-- What a key with an entry that does not stay makes of the dispatcher: another status, or the last
change, which is not the action of the command. -/
theorem parse_ne_of_not_stays (hreached : m.Reached) (hstatus : m.status = .command)
    (hfree : m.focus.any Focus.isHeld = false) (hdigit : m.countDigit? key = none)
    (hentry : entryOf m.table.bindings .command key.sequence = some entry) (h : ¬Stays entry)
    (count : Nat) :
    (m.parse key).1.status ≠ .command ∨
      (m.parse key).2 ≠ some (Action.ofCommand entry.command .move count) := by
  obtain ⟨hplain, hnext⟩ := not_or.mp h
  have hreplace : m.status ≠ .replace := by
    rw [hstatus]
    decide
  have hfollows := Vi.followed { m with focus := none } entry
  rw [parse_of_free hfree, resolve_of_entry (m := { m with focus := none }) hdigit hreplace
    (hstatus ▸ hentry)]
  generalize hafter : follow { m with focus := none } entry = answer at hfollows ⊢
  obtain ⟨after, action?⟩ := answer
  cases hfollows with
  | focused begins =>
    rw [← Focus.isSome_ofCommand?, begins] at hplain
    exact absurd rfl hplain
  | repeated again =>
    obtain ⟨-, entries, hcommand, hmem⟩ :=
      exists_entries_of_entryOf hreached.adapted.command_of_again hentry
    refine .inr fun haction => ?_
    have hchange := hreached.isChange_lastChange _ haction
    rw [hcommand entry hmem again] at hchange
    cases hchange
  | acted => exact .inl hnext

/-! ## The same command by an added key -/

/-- An added key and a usual one of the same command, both bound. -/
theorem parse_eq_parse_iff (hreached : m.Reached) (hstatus : m.status = .command)
    (hfree : m.focus.any Focus.isHeld = false) (hdigit : m.countDigit? stroke = none)
    (hadded : entryOf m.table.bindings .command stroke.sequence = some (addedEntry entry.command))
    (hkey : entryOf m.table.bindings .command key.sequence = some entry) :
    m.parse stroke = m.parse key ↔
      m.countDigit? key = none ∧ Stays entry ∧
        (entry.command.takesFocus = false → entry.recording = .always →
          m.lastChange = some (Action.ofCommand entry.command .move m.totalCount)) := by
  rw [parse_added hstatus hfree hdigit hadded]
  cases hcounts : m.countDigit? key with
  | some digit =>
    have hparse : (m.parse key).2 = none := by
      rw [parse_of_free hfree, resolve,
        show countDigit? { m with focus := none } key = some digit from hcounts]
    refine iff_of_false (fun hsame => ?_) fun h => Option.some_ne_none digit h.1
    rw [← hsame] at hparse
    cases hparse
  | none =>
    rw [and_iff_right rfl]
    by_cases hstays : Stays entry
    · rw [parse_of_stays hstatus hfree hcounts hkey hstays, and_iff_right hstays, stay]
      constructor
      · intro hsame hplain halways
        have hlast := congrArg (fun answer => answer.1.lastChange) hsame
        exact hlast.trans (if_pos ⟨hplain, halways⟩)
      · intro hlast
        split
        · next hrecorded =>
          rw [← hlast hrecorded.1 hrecorded.2]
          rfl
        · rfl
    · refine iff_of_false (fun hsame => ?_) fun h => hstays h.1
      have hne := parse_ne_of_not_stays hreached hstatus hfree hcounts hkey hstays m.totalCount
      rw [← hsame] at hne
      rcases hne with hne | hne
      · exact hne hstatus
      · exact hne rfl

/-- **Where an added key means what a usual one means.**  Let a dispatcher be built for any device
and asked anything, and let it be in command status with no action in focus.  Bind a sequence that
is not one digit to the command of a key that has an entry there.  Then the sequence leads to the
action of the command, forgets the counts and leaves status and remembered change as they were.  The
key does the same exactly if it is not a digit of a count, its entry takes the focus or stays in
command status, and it would remember nothing new. -/
theorem parse_added_eq_iff (hreached : m.Reached) (hstatus : m.status = .command)
    (hfree : m.focus.any Focus.isHeld = false)
    (hkey : entryOf m.table.bindings .command key.sequence = some entry)
    (hsequence : ∀ c, stroke.sequence = [c] → c.isDigit = false)
    (hadded : m.addCommand stroke.sequence entry.command = .ok after) :
    let action := Action.ofCommand entry.command .move m.totalCount
    after.parse stroke =
        ({ after.forgetCounts with focus := Focus.ofCommand? entry.command }, some action) ∧
      (after.parse stroke = after.parse key ↔
        m.countDigit? key = none ∧ (entry.command.takesFocus = true ∨ entry.next = .command) ∧
          (entry.command.takesFocus = false → entry.recording = .always →
            m.lastChange = some action)) := by
  intro action
  have hperform : m.perform (.bind stroke.sequence entry.command) = (after, none) := by
    rw [perform, hadded]
  have hreached' : after.Reached := by
    have hnext := hreached.perform (.bind stroke.sequence entry.command)
    rwa [hperform] at hnext
  have hdigit : after.countDigit? stroke = none :=
    countDigit?_eq_none fun c hc hdigit => by
      rw [hsequence c hc] at hdigit
      cases hdigit
  have hentry := entryOf_addCommand_self hadded
  have hkey' := entryOf_addCommand hadded hkey
  obtain ⟨b, -, rfl⟩ := eq_of_addCommand hadded
  exact ⟨parse_added hstatus hfree hdigit hentry,
    parse_eq_parse_iff hreached' hstatus hfree hdigit hentry hkey'⟩

/-- With `gk` bound to the command of `k`, both keys show the same entry of the history. -/
theorem parse_added_history_key :
    let m := (start .ansi).performAll
      [.key (.ofKey .escape), .key (.ofChar '2'), .key (.ofChar 'x'), .key (.ofChar '3')]
    let after := (m.perform (.bind ['g', 'k'] .previousHistory)).1
    m.Reached ∧ m.status = .command ∧ m.lastChange ≠ none ∧
      m.addCommand ['g', 'k'] .previousHistory = .ok after ∧
      after.parse (.ofSequence ['g', 'k']) = after.parse (.ofChar 'k') := by
  intro m after
  have hreached : m.Reached := ⟨.ansi, _, rfl⟩
  have hstate : m.status = .command ∧ m.focus.any Focus.isHeld = false ∧ m.lastChange ≠ none ∧
      entryOf m.table.bindings .command (Stroke.ofChar 'k').sequence =
        some ⟨.previousHistory, .command, .command, .never⟩ ∧
      (m.addCommand ['g', 'k'] .previousHistory).toOption.isSome = true ∧
      m.countDigit? (.ofChar 'k') = none := by
    decide +kernel
  obtain ⟨hstatus, hfree, hlast, hkey, hbinds, hdigit⟩ := hstate
  have hadded : m.addCommand (Stroke.ofSequence ['g', 'k']).sequence .previousHistory = .ok after :=
    addCommand_eq_ok hbinds
  have hsequence : ∀ c, (Stroke.ofSequence ['g', 'k']).sequence = [c] → c.isDigit = false := by
    intro c hc
    cases hc
  have hadds := parse_added_eq_iff hreached hstatus hfree hkey hsequence hadded
  refine ⟨hreached, hstatus, hlast, hadded, hadds.2.mpr ⟨hdigit, .inr rfl, fun _ halways => ?_⟩⟩
  cases halways

/-- With `gi` bound to the command of `i`, nothing can be typed after it. -/
theorem added_insert_key_inserts_nothing :
    let m := (start .ansi).performAll [.key (.ofKey .escape)]
    let after := (m.perform (.bind ['g', 'i'] .viInsert)).1
    m.Reached ∧ m.status = .command ∧ m.focus = none ∧
      entryOf defaults .command ['i'] = some ⟨.viInsert, .command, .edit, .never⟩ ∧
      m.addCommand ['g', 'i'] .viInsert = .ok after ∧
      (after.parse (.ofChar 'i')).1.status = .edit ∧
      (after.parse (.ofSequence ['g', 'i'])).1.status = .command ∧
      (after.parse (.ofSequence ['g', 'i'])).2 = (after.parse (.ofChar 'i')).2 := by
  intro m after
  have hreached : m.Reached := ⟨.ansi, _, rfl⟩
  have hstate : m.status = .command ∧ m.focus = none ∧
      (m.addCommand ['g', 'i'] .viInsert).toOption.isSome = true ∧
      (after.parse (.ofChar 'i')).1.status = .edit ∧
      (after.parse (.ofSequence ['g', 'i'])).1.status = .command ∧
      (after.parse (.ofSequence ['g', 'i'])).2 = (after.parse (.ofChar 'i')).2 := by
    decide +kernel
  have hentry : entryOf defaults .command ['i'] = some ⟨.viInsert, .command, .edit, .never⟩ := by
    rw [entryOf_defaults]
    decide +kernel
  obtain ⟨hstatus, hfocus, hbinds, hparses⟩ := hstate
  exact ⟨hreached, hstatus, hfocus, hentry, addCommand_eq_ok hbinds, hparses⟩

end Vi

end PromptLine
