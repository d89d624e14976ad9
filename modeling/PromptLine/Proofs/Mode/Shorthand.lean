import PromptLine.Proofs.Mode.ViInputs

/-!
# Shorthands

Six keys of command status say in one key what an operator says with another key behind it: `x` is
`dl`, and `S` is `cc`.  The two spellings take different ways through the table.  A shorthand has an
operation of its own and is always remembered; an operator waits in a status of its own, where the
key behind it takes the operation from the status and the count from before the operator.

Both arrive at one action, but for the name of the command that made it (`Shorthand.after`).  No
action on a range asks for its name, so a dispatcher that remembers the one goes on like a
dispatcher that remembers the other (`sameButName_parse`).
-/

namespace PromptLine

/-! ## Actions under another name -/

namespace Action

/-- The action under the name of another command, if it works on a range.  What other actions do
hangs on their command. -/
def renamed (command : Command) : Action → Action
  | range r => range { r with command := command }
  | action => action

theorem renamed_command (action : Action) : action.renamed action.command = action := by
  cases action <;> rfl

/-- An action does the same under another name. -/
theorem apply_renamed (command : Command) (setting : Setting) (action : Action) (d : Desk) :
    (action.renamed command).apply setting d =
      ((action.apply setting d).1.renamed command, (action.apply setting d).2) := by
  cases action <;> rfl

theorem focusAfter_renamed (command : Command) (action : Action) (current : Option Focus) :
    (action.renamed command).focusAfter current = action.focusAfter current := by
  cases action <;> rfl

end Action

namespace Vi

/-- The dispatcher with another name in what it remembers. -/
def renamed (command : Command) (m : Vi) : Vi :=
  { m with lastChange := m.lastChange.map (Action.renamed command) }

/-- The second answer is the first, up to the name of what is remembered, and of what is done. -/
def SameButName (first second : Vi × Option Action) : Prop :=
  (∃ command, second.1 = first.1.renamed command) ∧
    ∃ command, second.2 = first.2.map (Action.renamed command)

theorem exists_map_renamed (action? : Option Action) :
    ∃ command, action? = action?.map (Action.renamed command) := by
  cases action? with
  | none => exact ⟨.viRepeat, rfl⟩
  | some action => exact ⟨action.command, congrArg some action.renamed_command.symm⟩

/-- A dispatcher is what it is under another name, namely under the one that it has. -/
theorem exists_renamed (m : Vi) : ∃ command, m = m.renamed command := by
  obtain ⟨command, hcommand⟩ := exists_map_renamed m.lastChange
  exact ⟨command, congrArg (fun change => { m with lastChange := change }) hcommand⟩

theorem sameButName_follow (command : Command) (m : Vi) (entry : Entry) :
    SameButName (m.follow entry) ((m.renamed command).follow entry) := by
  have hstatus : (m.renamed command).status = m.status := rfl
  rw [follow, follow, hstatus]
  cases entry.command.takesFocus with
  | true => exact ⟨⟨command, rfl⟩, exists_map_renamed _⟩
  | false =>
    by_cases hagain : entry.next = .again
    · rw [if_pos hagain, if_pos hagain]
      exact ⟨⟨command, rfl⟩, command, rfl⟩
    · rw [if_neg hagain, if_neg hagain]
      refine ⟨?_, ?_⟩
      · -- what is remembered now hides the difference
        cases entry.isRecorded m.status with
        | true =>
          cases entry.next.awaitsMotion && !m.status.awaitsMotion <;> exact exists_renamed _
        | false =>
          cases entry.next.awaitsMotion && !m.status.awaitsMotion <;> exact ⟨command, rfl⟩
      · cases entry.next.awaitsMotion && !m.status.awaitsMotion <;> exact exists_map_renamed _

theorem sameButName_resolve (command : Command) (m : Vi) (stroke : Stroke) :
    SameButName (m.resolve stroke) ((m.renamed command).resolve stroke) := by
  have hdigit : (m.renamed command).countDigit? stroke = m.countDigit? stroke := rfl
  have hstatus : (m.renamed command).status = m.status := rfl
  have htable : (m.renamed command).table = m.table := rfl
  rw [resolve, resolve, hdigit]
  cases m.countDigit? stroke with
  | some digit => exact ⟨⟨command, rfl⟩, command, rfl⟩
  | none =>
    dsimp only
    rw [hstatus, htable]
    split
    · rw [replaceWith, replaceWith]
      cases stroke.printable? with
      | none => exact ⟨⟨command, rfl⟩, command, rfl⟩
      | some c => exact ⟨⟨command, rfl⟩, command, rfl⟩
    · split
      · exact sameButName_follow command m _
      · rw [unbound, unbound, hstatus]
        split
        · exact ⟨⟨command, rfl⟩, exists_map_renamed _⟩
        · exact ⟨⟨command, rfl⟩, command, rfl⟩

/-- **Names make no difference to what keys mean.**  Dispatchers that remember one action under two
names answer every key alike, up to names. -/
theorem sameButName_parse (command : Command) (m : Vi) (stroke : Stroke) :
    SameButName (m.parse stroke) ((m.renamed command).parse stroke) := by
  have hfocus : (m.renamed command).focus = m.focus := rfl
  have htext : (m.renamed command).textCommand? stroke = m.textCommand? stroke := rfl
  rw [parse, parse, hfocus, htext]
  rcases Focus.route m.focus (m.textCommand? stroke) stroke with ⟨f, _ | action⟩
  · exact sameButName_resolve command { m with focus := f } stroke
  · exact ⟨⟨command, rfl⟩, exists_map_renamed _⟩

/-! ## The keys -/

/-- No device moves an operator. -/
theorem Adapted.entryOf_operator {b : Bindings Entries} (h : Adapted b) (op : Operator) :
    entryOf b .command op.sequence = some ⟨op.command, .command, op.status, .never⟩ := by
  have hall : ∀ op ∈ Operator.all, ∀ entry ∈ DeviceKey.movable,
      entry.2.sequence ≠ op.sequence := by
    decide
  exact h.entryOf_of_usual (Vi.entryOf_operator op) (hall op op.mem_all)

/-- A key of command status that stands for an operator with a last key behind it.  Either spelling
has a command that makes the action, and the motion is the same. -/
structure Shorthand where
  key : Char
  command : Command
  operator : Operator
  last : Char
  lastCommand : Command
  motion : Motion
  deriving DecidableEq, Repr

/-- The letters that are shorthands. -/
def shorthands : List Shorthand := [
  ⟨'x', .viDeleteChar, .delete, 'l', .forwardChar, .forwardChar⟩,
  ⟨'X', .viBackwardDeleteChar, .delete, 'h', .backwardChar, .backwardChar⟩,
  ⟨'D', .viDeleteToEnd, .delete, '$', .endOfLine, .lineEnd⟩,
  ⟨'C', .viChangeToEnd, .change, '$', .endOfLine, .lineEnd⟩,
  ⟨'s', .viSubstituteChar, .change, 'l', .forwardChar, .forwardChar⟩,
  ⟨'S', .viSubstituteLine, .change, 'c', .viWholeLine, .wholeLine⟩]

namespace Shorthand

variable {s : Shorthand}

/-- What is done, under the name of a command. -/
def range (s : Shorthand) (command : Command) (count : Nat) : RangeAction :=
  ⟨command, s.motion, s.operator.status, count⟩

/-- The entry of the key. -/
def keyEntry (s : Shorthand) : Entry := ⟨s.command, .command, s.operator.next, .always⟩

/-- The entry of the last key of the longer spelling. -/
def lastEntry (s : Shorthand) : Entry :=
  ⟨s.lastCommand, s.operator.status, s.operator.next, .withOperator⟩

/-- The dispatcher after either spelling: it remembers what was done, and no count. -/
def after (s : Shorthand) (m : Vi) (command : Command) (count : Nat) : Vi :=
  { m.forgetCounts with
    focus := none
    status := s.operator.next
    lastChange := some (.range (s.range command count)) }

/-- Both commands make that action. -/
theorem ofCommand_eq (h : s ∈ shorthands) (count : Nat) :
    Action.ofCommand s.command .move count = .range (s.range s.command (max count 1)) ∧
      Action.ofCommand s.lastCommand s.operator.status count =
        .range (s.range s.lastCommand (max count 1)) := by
  have hall : ∀ s ∈ shorthands,
      Action.ofCommand s.command .move count = .range (s.range s.command (max count 1)) ∧
        Action.ofCommand s.lastCommand s.operator.status count =
          .range (s.range s.lastCommand (max count 1)) := by
    simp only [shorthands, List.forall_mem_cons]
    exact ⟨⟨rfl, rfl⟩, ⟨rfl, rfl⟩, ⟨rfl, rfl⟩, ⟨rfl, rfl⟩, ⟨rfl, rfl⟩, ⟨rfl, rfl⟩,
      List.forall_mem_nil _⟩
  exact hall s h

theorem removesText_operator (h : s ∈ shorthands) : s.operator.status.removesText = true := by
  have hall : ∀ s ∈ shorthands, s.operator.status.removesText = true := by decide
  exact hall s h

/-- Neither key is a digit. -/
theorem isDigit_eq_false (h : s ∈ shorthands) : s.key.isDigit = false ∧ s.last.isDigit = false := by
  have hall : ∀ s ∈ shorthands, s.key.isDigit = false ∧ s.last.isDigit = false := by decide
  exact hall s h

/-- A shorthand's key does at once what it stands for. -/
theorem immediate_key (h : s ∈ shorthands) : Immediate s.keyEntry := by
  have hall : ∀ s ∈ shorthands, s.command.takesFocus = false := by decide
  exact ⟨hall s h, s.operator.next_ne_again, s.operator.awaitsMotion_next⟩

/-- So does the last key of the longer spelling. -/
theorem immediate_last (h : s ∈ shorthands) : Immediate s.lastEntry := by
  have hall : ∀ s ∈ shorthands, s.lastCommand.takesFocus = false := by decide
  exact ⟨hall s h, s.operator.next_ne_again, s.operator.awaitsMotion_next⟩

/-! ## Their entries -/

variable {b : Bindings Entries}

theorem entryOf_key (h : s ∈ shorthands) (hb : Adapted b) :
    entryOf b .command [s.key] = some s.keyEntry := by
  have hall : ∀ s ∈ shorthands, entryOf defaults .command [s.key] = some s.keyEntry ∧
      ∀ entry ∈ DeviceKey.movable, entry.2.sequence ≠ [s.key] := by
    simp only [entryOf_defaults]
    decide
  exact hb.entryOf_of_usual (hall s h).1 (hall s h).2

theorem entryOf_last (h : s ∈ shorthands) (hb : Adapted b) :
    entryOf b s.operator.status [s.last] = some s.lastEntry := by
  have hall : ∀ s ∈ shorthands, entryOf defaults s.operator.status [s.last] = some s.lastEntry ∧
      ∀ entry ∈ DeviceKey.movable, entry.2.sequence ≠ [s.last] := by
    simp only [entryOf_defaults]
    decide
  exact hb.entryOf_of_usual (hall s h).1 (hall s h).2

end Shorthand

/-! ## The spellings, key by key -/

section Resolving

variable {n : Vi} {stroke : Stroke} {s : Shorthand} (hs : s ∈ shorthands) (hb : Adapted n.table.bindings)

include hs hb

/-- A shorthand, with the count before it. -/
theorem resolve_key (hstatus : n.status = .command) (hfocus : n.focus = none)
    (hoperator : n.operatorCount = none) (hstroke : stroke.sequence = [s.key]) :
    n.resolve stroke = (s.after n s.command (max (n.count.getD 1) 1),
      some (.range (s.range s.command (max (n.count.getD 1) 1)))) := by
  have hdigit := countDigit?_of_single (m := n) hstroke (Shorthand.isDigit_eq_false hs).1
  have hnot : n.status ≠ .replace := by
    rw [hstatus]
    decide
  have hentry : entryOf n.table.bindings n.status stroke.sequence = some s.keyEntry := by
    rw [hstatus, hstroke]
    exact Shorthand.entryOf_key hs hb
  have haction : Action.ofCommand s.keyEntry.command n.status.operation n.totalCount =
      .range (s.range s.command (max (n.count.getD 1) 1)) := by
    rw [hstatus, totalCount, hoperator, Option.getD_none, Nat.one_mul]
    exact (Shorthand.ofCommand_eq hs _).1
  rw [resolve_immediate hdigit hnot hentry (Shorthand.immediate_key hs), haction, Shorthand.after,
    ← hfocus]
  rfl

/-- The last key of the longer spelling, with the count before the operator. -/
theorem resolve_last (hstatus : n.status = s.operator.status) (hfocus : n.focus = none)
    (hcount : n.count = none) (hstroke : stroke.sequence = [s.last]) :
    n.resolve stroke = (s.after n s.lastCommand (max (n.operatorCount.getD 1) 1),
      some (.range (s.range s.lastCommand (max (n.operatorCount.getD 1) 1)))) := by
  have hdigit := countDigit?_of_single (m := n) hstroke (Shorthand.isDigit_eq_false hs).2
  have hnot : n.status ≠ .replace := by
    rw [hstatus]
    exact s.operator.status_ne_replace
  have hentry : entryOf n.table.bindings n.status stroke.sequence = some s.lastEntry := by
    rw [hstatus, hstroke]
    exact Shorthand.entryOf_last hs hb
  have haction : Action.ofCommand s.lastEntry.command n.status.operation n.totalCount =
      .range (s.range s.lastCommand (max (n.operatorCount.getD 1) 1)) := by
    rw [hstatus, s.operator.operation_status, totalCount, hcount, Option.getD_none, Nat.mul_one]
    exact (Shorthand.ofCommand_eq hs _).2
  have hrecorded : s.lastEntry.isRecorded n.status = true := by
    rw [hstatus, Entry.isRecorded, Shorthand.lastEntry, Shorthand.removesText_operator hs]
    rfl
  rw [resolve_immediate hdigit hnot hentry (Shorthand.immediate_last hs), haction, hrecorded,
    Shorthand.after, ← hfocus]
  rfl

end Resolving

end Vi

end PromptLine
