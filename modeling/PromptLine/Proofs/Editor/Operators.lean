import PromptLine.Proofs.Action.OperatorRanges
import PromptLine.Proofs.Editor.Keystrokes

/-!
# Typing an operator and its motion

An operator, its counts and its motion are several keys, and each of them is dealt with by itself.
In between it is known where the editor `Stands`, with all of its dispatcher, and the desk is still
as it was.  For the desk alone less is enough: with the usual bindings the editor is `Typing` if it
is known which operator waits and which counts were typed.  Digits and operators only carry this on;
the motion does the whole operation at once.
-/

namespace PromptLine

namespace Editor

/-! ## Between two keys -/

/-- The editor between two keys, with its dispatcher and its desk.  No action holds the focus, and
one that has let go of it is left out. -/
structure Stands (e : Editor) (n : Vi) (desk : Desk) : Prop where
  mode : ∃ m : Vi, e.mode = .vi m ∧ m.focus.any Focus.isHeld = false ∧ { m with focus := none } = n
  desk : e.desk = desk

section Stands

variable {e : Editor} {n after : Vi} {desk : Desk} {stroke : Stroke}

theorem Stands.focus (h : e.Stands n desk) : n.focus = none := by
  obtain ⟨m, -, -, rfl⟩ := h.mode
  rfl

theorem Stands.parse (h : e.Stands n desk) (stroke : Stroke) :
    e.mode.parse stroke = (.vi (n.resolve stroke).1, (n.resolve stroke).2) := by
  obtain ⟨m, hmode, hfree, rfl⟩ := h.mode
  rw [hmode]
  exact Mode.parse_vi (Vi.parse_of_free hfree stroke)

theorem stands_of_mode (hmode : e.mode = .vi n) (hfocus : n.focus = none) (hdesk : e.desk = desk) :
    e.Stands n desk := by
  refine ⟨⟨n, hmode, ?_, ?_⟩, hdesk⟩
  · rw [hfocus]
    rfl
  · rw [← hfocus]

/-- A key that leads to no action. -/
theorem Stands.idle (h : e.Stands n desk) (hresolve : n.resolve stroke = (after, none))
    (hfocus : after.focus = none) : (e.press stroke).Stands after desk := by
  have hparse := h.parse stroke
  rw [hresolve] at hparse
  obtain ⟨hmode, hdesk⟩ := press_of_idle hparse
  exact stands_of_mode hmode hfocus (hdesk.trans h.desk)

/-- A key that leads to an action after which the line goes on. -/
theorem Stands.goesOn (h : e.Stands n desk) {action : Action} {reaction : Reaction}
    (hresolve : n.resolve stroke = (after, some action)) (hfocus : after.focus = none)
    (hfree : ∀ current, action.focusAfter current = current)
    (happly : action.apply ⟨e.config, after.status != .edit⟩ desk = (action, reaction))
    (hgoes : reaction.outcome.event? = none) :
    (e.press stroke).mode = .vi after ∧ (e.press stroke).Stands after reaction.desk := by
  have hparse := h.parse stroke
  rw [hresolve] at hparse
  rw [← h.desk] at happly
  obtain ⟨hmode, hdesk⟩ := press_of_goesOn hparse happly hgoes
  rw [Mode.takeBack, hfree] at hmode
  exact ⟨hmode, stands_of_mode hmode hfocus hdesk⟩

/-- The digits of a count, of which the first can only be a zero if there is a count already. -/
theorem Stands.digits {digits : Text} {strokes : List Stroke}
    (hstatus : n.status.takesText = false)
    (hstrokes : strokes.map Stroke.sequence = digits.map ([·]))
    (hdigits : ∀ c ∈ digits, c.isDigit = true) (hzero : digits.head? = some '0' → n.count ≠ none)
    (h : e.Stands n desk) :
    (strokes.foldl press e).Stands { n with count := digits.foldl Vi.extendCount n.count } desk := by
  induction digits generalizing e strokes n with
  | nil =>
    obtain rfl := List.map_eq_nil_iff.mp hstrokes
    exact h
  | cons c rest ih =>
    obtain ⟨stroke, strokes, rfl, hstroke, hrest⟩ := List.map_eq_cons_iff.mp hstrokes
    have hfirst := h.idle (Vi.resolve_digit hstatus hstroke (hdigits c List.mem_cons_self)
      (fun hc => hzero (congrArg some hc))) h.focus
    rw [List.foldl_cons, List.foldl_cons]
    exact ih (n := { n with count := Vi.extendCount n.count c }) hstatus hrest
      (fun d hd => hdigits d (List.mem_cons_of_mem c hd)) (fun _ => Option.some_ne_none _) hfirst

/-- An operator waits, with the count before it for its own. -/
theorem Stands.operator (h : e.Stands n desk) (op : Vi.Operator) (hstatus : n.status = .command)
    (hentry : Vi.entryOf n.table.bindings .command op.sequence =
      some ⟨op.command, .command, op.status, .never⟩)
    (hstroke : stroke.sequence = op.sequence) :
    (e.press stroke).Stands { n with operatorCount := n.count, count := none, status := op.status }
      desk := by
  have happly (setting : Setting) : (Action.plain op.command 1).apply setting desk =
      (.plain op.command 1, ⟨desk, .proceed, none⟩) := by
    cases op <;> rfl
  exact (h.goesOn (Vi.resolve_operator op hstatus hentry hstroke) h.focus (fun _ => rfl)
    (happly _) rfl).2

end Stands

/-- The editor between two keys of a command, and the desk it works on. -/
structure Typing (e : Editor) (status : Status) (operatorCount count : Option Nat)
    (desk : Desk) : Prop where
  mode : ∃ m : Vi, e.mode = .vi m ∧ m.Awaits status operatorCount count
  desk : e.desk = desk

section Keys

variable {e : Editor} {n : Vi} {status : Status} {operatorCount count : Option Nat} {desk : Desk}
  {stroke : Stroke}

theorem Typing.exists_stands (h : e.Typing status operatorCount count desk) :
    ∃ n : Vi, n.Awaits status operatorCount count ∧ e.Stands n desk := by
  obtain ⟨⟨m, hmode, htable, hfree, hstatus, hoperator, hcount⟩, hdesk⟩ := h
  exact ⟨{ m with focus := none }, ⟨htable, rfl, hstatus, hoperator, hcount⟩,
    ⟨m, hmode, hfree, rfl⟩, hdesk⟩

theorem Stands.typing (h : e.Stands n desk) (hn : n.Awaits status operatorCount count) :
    e.Typing status operatorCount count desk := by
  obtain ⟨⟨m, hmode, hfree, rfl⟩, hdesk⟩ := h
  exact ⟨⟨m, hmode, hn.table, hfree, hn.status, hn.operatorCount, hn.count⟩, hdesk⟩

/-! ## Key by key -/

/-- The digits of a count, of which the first can only be a zero if there is a count already. -/
theorem Typing.digits {digits : Text} {strokes : List Stroke}
    (hstatus : status.takesText = false)
    (hstrokes : strokes.map Stroke.sequence = digits.map ([·]))
    (hdigits : ∀ c ∈ digits, c.isDigit = true) (hzero : digits.head? = some '0' → count ≠ none)
    (h : e.Typing status operatorCount count desk) :
    (strokes.foldl press e).Typing status operatorCount (digits.foldl Vi.extendCount count)
      desk := by
  obtain ⟨n, ⟨htable, hfree, rfl, rfl, rfl⟩, hstands⟩ := h.exists_stands
  exact (hstands.digits hstatus hstrokes hdigits hzero).typing ⟨htable, hfree, rfl, rfl, rfl⟩

theorem Typing.operator (h : e.Typing .command operatorCount count desk) (op : Vi.Operator)
    (hstroke : stroke.sequence = op.sequence) :
    (e.press stroke).Typing op.status count none desk := by
  obtain ⟨n, ⟨htable, hfree, hstatus, -, rfl⟩, hstands⟩ := h.exists_stands
  have hentry : Vi.entryOf n.table.bindings .command op.sequence =
      some ⟨op.command, .command, op.status, .never⟩ := by
    rw [htable]
    exact Vi.entryOf_operator op
  exact (hstands.operator op hstatus hentry hstroke).typing ⟨htable, hfree, rfl, rfl, rfl⟩

/-- A key that does something at once, after which the line goes on. -/
theorem Typing.entry (h : e.Typing status operatorCount count desk) (hstatus : status ≠ .replace)
    {entry : Entry} (hentry : Vi.entryOf Vi.defaults status stroke.sequence = some entry)
    (himmediate : Vi.Immediate entry)
    (hdigit : ∀ c, stroke.sequence = [c] → c.isDigit = true → c = '0' ∧ count = none)
    {action : Action} {reaction : Reaction}
    (haction : Action.ofCommand entry.command status.operation
      (operatorCount.getD 1 * count.getD 1) = action)
    (hfree : ∀ current, action.focusAfter current = current)
    (happly : action.apply ⟨e.config, entry.next != .edit⟩ desk = (action, reaction))
    (hgoes : reaction.outcome.event? = none) :
    (e.press stroke).Typing entry.next none none reaction.desk := by
  obtain ⟨n, ⟨htable, hheld, rfl, rfl, rfl⟩, hstands⟩ := h.exists_stands
  have hbound : Vi.entryOf n.table.bindings n.status stroke.sequence = some entry := by
    rw [htable]
    exact hentry
  have hresolve := Vi.resolve_immediate (Vi.countDigit?_eq_none hdigit) hstatus hbound himmediate
  dsimp only at hresolve
  rw [Vi.totalCount, haction] at hresolve
  exact (hstands.goesOn hresolve hstands.focus hfree happly hgoes).2.typing
    ⟨htable, hheld, rfl, rfl, rfl⟩

/-- Where an operator's motion leads: as far as the count asks for, and one character more if the
motion includes the one it stops at. -/
def operatorTarget (motion : Motion) (line : Text) (count cursor : Nat) : Nat :=
  let there := (motion.target line)^[count] cursor
  if motion.isInclusive then min (there + 1) line.length else there

theorem operatorTarget_le_length (motion : Motion) {line : Text} {cursor : Nat}
    (h : cursor ≤ line.length) (count : Nat) :
    operatorTarget motion line count cursor ≤ line.length := by
  rw [operatorTarget]
  split
  · exact Nat.min_le_right _ _
  · exact motion.iterate_target_le_length h count

/-- The motion does the operation. -/
theorem Typing.motion {op : Vi.Operator} (h : e.Typing op.status operatorCount count desk)
    {key : Key} {command : Command} (hkey : (key, command) ∈ Vi.motionKeys)
    (hstroke : stroke.sequence = key.sequence) (hzero : key = .char '0' → count = none)
    {times : Nat} (htimes : max (operatorCount.getD 1 * count.getD 1) 1 = times) :
    ∃ motion, command.motionFor? op.status = some motion ∧
      (e.press stroke).Typing op.next none none
        (desk.applyRange (op != .change) op.status desk.buffer.cursor
          (operatorTarget motion desk.buffer.text times desk.buffer.cursor)) := by
  obtain ⟨motion, hmotion, hpart, haction⟩ := Vi.command_of_motion op hkey
  have hentry := Vi.entryOf_motion op hkey
  rw [← hstroke] at hentry
  have hpressed := h.entry op.status_ne_replace hentry (Vi.immediate_of_motion op hkey)
    (Vi.uncounted_of_motion hkey hstroke hzero)
    (by rw [op.operation_status, haction, htimes]) (fun _ => rfl) rfl rfl
  have hcommand : (op.next != .edit) = (op != .change) := by cases op <;> rfl
  have hends : RangeAction.ends ⟨command, motion, op.status, times⟩ desk.buffer =
      (desk.buffer.cursor, operatorTarget motion desk.buffer.text times desk.buffer.cursor) := by
    have hmoves : op.status ≠ .move := by cases op <;> decide
    rw [RangeAction.ends, operatorTarget]
    dsimp only
    rw [if_neg hpart, Motion.targetAfter_eq_iterate]
    dsimp only
    split
    · next hinclusive => rw [if_pos hinclusive.1]; rfl
    · next hexclusive => rw [if_neg fun hinclusive => hexclusive ⟨hinclusive, hmoves⟩]
  dsimp only at hpressed
  rw [RangeAction.apply, hends, hcommand] at hpressed
  dsimp only at hpressed
  rw [if_neg fun hwhole => hpart hwhole.1] at hpressed
  exact ⟨motion, hmotion, hpressed⟩

end Keys

/-! ## Whole commands -/

/-- The keys of an operator with its motion, each with the count in front of it. -/
def operatorKeys (before : Text) (op : Vi.Operator) (between : Text) (key : Key) : List Text :=
  before.map ([·]) ++ op.sequence :: (between.map ([·]) ++ [key.sequence])

/-- **An operator, its counts and its motion do the range operation they mean.**  From command
status, the keys leave the line with the range between the cursor and the motion's target taken
away, copied or put into another case, and the status that follows the operator. -/
theorem foldl_press_operator {e : Editor} {m : Vi} (hmode : e.mode = .vi m)
    (husual : e.mode.Usual) (hstatus : m.status = .command) (hcount : m.count = none)
    (hfocus : e.mode.hasFocus = false) (hcursor : e.desk.buffer.cursor ≤ e.desk.buffer.length)
    (hmasked : e.desk.buffer.masked = false) (op : Vi.Operator) {key : Key} {command : Command}
    (hkey : (key, command) ∈ Vi.motionKeys) {before between : Text} (hbefore : Vi.IsCount before)
    (hbetween : Vi.IsCount between) (hzero : between ≠ [] → key ≠ .char '0') {strokes : List Stroke}
    (hstrokes : strokes.map Stroke.sequence = operatorKeys before op between key) :
    ∃ motion after, command.motionFor? op.status = some motion ∧
      (strokes.foldl press e).mode = .vi after ∧ after.status = op.next ∧
        let target := operatorTarget motion e.desk.buffer.text
          (Vi.countOf before * Vi.countOf between) e.desk.buffer.cursor
        op.Done (min e.desk.buffer.cursor target) (max e.desk.buffer.cursor target) e.desk
          (strokes.foldl press e).desk := by
  obtain ⟨first, rest, rfl, hfirst, hrest⟩ := List.map_eq_append_iff.mp hstrokes
  obtain ⟨operator, rest, rfl, hoperator, hrest⟩ := List.map_eq_cons_iff.mp hrest
  obtain ⟨second, last, rfl, hsecond, hlast⟩ := List.map_eq_append_iff.mp hrest
  obtain ⟨stroke, rfl, hstroke⟩ := List.map_eq_singleton_iff.mp hlast
  have hstart : e.Typing .command m.operatorCount none e.desk := by
    refine ⟨⟨m, hmode, ?_, ?_, hstatus, rfl, hcount⟩, rfl⟩
    · rw [hmode] at husual
      exact husual.table_vi
    · rw [hmode] at hfocus
      exact hfocus
  have hcounted := hstart.digits rfl hfirst hbefore.isDigit (fun h => absurd h hbefore.leads)
  have hwaits := (hcounted.operator op hoperator).digits op.takesText_status hsecond
    hbetween.isDigit (fun h => absurd h hbetween.leads)
  rw [Vi.foldl_extendCount_none, Vi.foldl_extendCount_none] at hwaits
  have hlead : key = .char '0' → Vi.countOf? between = none := by
    intro hchar
    rw [Vi.countOf?, if_pos (by_contra fun hne => hzero hne hchar)]
  have htimes : max (Vi.countOf before * Vi.countOf between) 1 =
      Vi.countOf before * Vi.countOf between :=
    Nat.max_eq_left (Nat.mul_pos (Vi.one_le_countOf hbefore) (Vi.one_le_countOf hbetween))
  obtain ⟨motion, hmotion, ⟨after, hafter, hawaits⟩, hdesk⟩ :=
    hwaits.motion hkey hstroke hlead htimes
  refine ⟨motion, after, hmotion, ?_, hawaits.status, ?_⟩
  · rw [List.foldl_append, List.foldl_cons, List.foldl_append]
    exact hafter
  · rw [List.foldl_append, List.foldl_cons, List.foldl_append]
    rw [List.foldl_cons, List.foldl_nil, hdesk]
    exact op.done_applyRange hcursor (operatorTarget_le_length motion hcursor _) hmasked

/-- Changing two words from the start of the line leaves the blank behind them, and the words can be
put back. -/
theorem foldl_press_change_words :
    let e := { new .default (.reliable .utf8) with
      mode := .vi { Vi.start .ansi with status := .command }
      desk := ⟨{ LineBuffer.empty false with text := "ab  cd ef".toList }, .empty 10, .empty 10⟩ }
    let after := [Stroke.ofChar '2', .ofChar 'c', .ofChar 'w'].foldl press e
    after.desk.buffer.text = " ef".toList ∧ after.desk.buffer.cursor = 0 ∧
      after.desk.kills.current? = some "ab  cd".toList ∧
        ∃ m, after.mode = .vi m ∧ m.status = .edit := by
  intro e after
  have hkey : (Key.char 'w', Command.viForwardWord) ∈ Vi.motionKeys := by decide
  have hcount : Vi.IsCount ['2'] := ⟨List.forall_mem_singleton.mpr rfl, by decide⟩
  have hnone : Vi.IsCount [] := ⟨List.forall_mem_nil _, by decide⟩
  have hstrokes : [Stroke.ofChar '2', .ofChar 'c', .ofChar 'w'].map Stroke.sequence =
      operatorKeys ['2'] .change [] (.char 'w') := rfl
  obtain ⟨motion, m, hmotion, hmode, hstatus, hdone⟩ := foldl_press_operator (e := e) rfl
    ⟨.vi, rfl⟩ rfl rfl rfl (by decide) rfl .change hkey hcount hnone (by decide) hstrokes
  obtain rfl : Motion.changeWord false = motion := Option.some.inj hmotion
  have htarget : operatorTarget (.changeWord false) e.desk.buffer.text
      (Vi.countOf ['2'] * Vi.countOf []) e.desk.buffer.cursor = 6 := by decide +kernel
  rw [htarget] at hdone
  exact ⟨hdone.text, hdone.cursor, hdone.kept rfl (by decide), m, hmode, hstatus⟩

end Editor

end PromptLine
