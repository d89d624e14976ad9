import PromptLine.Proofs.Mode.Chords
import PromptLine.Proofs.Mode.ViInputs

/-!
# Keys that lead out of any state

A mode can be in the middle of many things: an action has the focus, a leader was typed, an operator
or a character to replace is waited for, a count was begun.  Escape and the key that gives a line up
are answered differently in each of these states, and some of them swallow the key.  But a key that
is swallowed ends what swallowed it.

So two keys always suffice.  An action in focus lets go at the first of them, and nothing else is
left that could take the second.  For the plain dispatcher this needs that a leader is never armed
while an action has the focus, and for the modal one that its status is one in which escape is bound
or refused.  Both hold in a *steady* mode, and a steady mode stays so whatever is typed.
-/

namespace PromptLine

/-- The code of the key that gives a line up. -/
def interruptCode : Char := '\x03'

/-! ## Actions in focus -/

/-- **An action in focus lets go** at a key that is bound to giving the line up, and at one that
ends the typing of text.  The line goes on. -/
theorem Focus.lets_go (f : Focus) {command : Command}
    (hcommand : command = .interrupt ∨ command = .viCommandMode) {stroke : Stroke}
    (hstroke : stroke.printable? = none) (setting : Setting) (d : Desk) :
    ((f.input (some command) stroke).apply setting d).1.isHeld = false ∧
      ((f.input (some command) stroke).apply setting d).2.outcome = .proceed := by
  cases f with
  | quoted q => exact ⟨rfl, rfl⟩
  | search s =>
    have hstep : (s.input (some command) stroke).step = .abort ∨
        (s.input (some command) stroke).step = .leave := by
      rcases hcommand with rfl | rfl
      · exact .inl rfl
      · have hinput : s.input (some .viCommandMode) stroke = { s with step := .leave } := by
          simp only [Search.input, hstroke]
        exact .inr (congrArg Search.step hinput)
    change ((s.input (some command) stroke).apply setting d).1.focused = false ∧
      ((s.input (some command) stroke).apply setting d).2.outcome = .proceed
    rw [Search.apply]
    rcases hstep with hstep | hstep <;> rw [hstep] <;> exact ⟨rfl, rfl⟩

namespace Stroke

theorem printable?_of_control {stroke : Stroke} {c : Char} (hstroke : stroke.sequence = [c])
    (hcontrol : Unicode.isControl c = true) : stroke.printable? = none := by
  rw [printable?, single?_eq_some.mpr hstroke, Option.filter_some, hcontrol]
  rfl

theorem printable?_escape {stroke : Stroke} (hstroke : stroke.sequence = [escape]) :
    stroke.printable? = none :=
  printable?_of_control hstroke rfl

theorem printable?_interrupt {stroke : Stroke} (hstroke : stroke.sequence = [interruptCode]) :
    stroke.printable? = none :=
  printable?_of_control hstroke rfl

end Stroke

/-! ## The plain dispatcher -/

namespace Emacs

/-- A key that no action in focus gets leaves the leader idle, or arms it and leads to no action. -/
theorem leader_resolve (m : Emacs) (stroke : Stroke) :
    (m.resolve stroke).1.leader = .idle ∨
      (m.resolve stroke).2 = none ∧ (m.resolve stroke).1.focus = m.focus := by
  rw [resolve]
  dsimp only
  cases hleader : m.leader with
  | idle =>
    cases hleads : m.table.get? stroke == some .metaPrefix with
    | true => exact .inr ⟨rfl, rfl⟩
    | false =>
      have hpass : Leader.idle.step leaderKey stroke false = (.idle, .pass) := rfl
      left
      rw [hpass]
      dsimp only
      split <;> rfl
  | armed =>
    left
    rw [Leader.step]
    dsimp only
    split
    · rfl
    · rfl
    · split <;> rfl
    · split <;> rfl

variable {m : Emacs} {stroke : Stroke}

/-- The leader is armed only where no action has the focus. -/
theorem leader_parse (h : m.leader = .idle ∨ m.focus.any Focus.isHeld = false) (stroke : Stroke) :
    (m.parse stroke).1.leader = .idle ∨
      (m.parse stroke).2 = none ∧ (m.parse stroke).1.focus = none := by
  rw [parse]
  split
  · next f action hroute =>
    refine .inl (h.resolve_right fun hfree => ?_)
    rw [Focus.route_of_free hfree] at hroute
    cases hroute
  · next f hroute =>
    obtain rfl : f = none := by
      unfold Focus.route at hroute
      split at hroute
      · cases hroute
        rfl
      · split at hroute <;> cases hroute
        rfl
    exact leader_resolve { m with focus := none } stroke

/-- A code point behind the leader is looked up with the escape in front, and the leader is idle
again. -/
theorem parse_of_armed (hfree : m.focus.any Focus.isHeld = false) (hleader : m.leader = .armed)
    {c : Char} (hstroke : stroke.sequence = [c]) :
    m.parse stroke = chord { m with leader := .idle } c := by
  obtain ⟨table, leader, focus⟩ := m
  obtain rfl : leader = .armed := hleader
  have harmed :
      parse ⟨table, .armed, focus⟩ stroke = (armed ⟨table, .idle, none⟩).parse stroke := by
    rw [parse, parse, Focus.route_of_free hfree]
    rfl
  rw [harmed, parse_armed rfl hstroke]
  rfl

section Interrupt

variable (htable : m.table = .ofBindings defaults) (hstroke : stroke.sequence = [interruptCode])

include htable hstroke

theorem get?_interrupt : m.table.get? stroke = some .interrupt := by
  rw [htable, Keymap.get?, Keymap.bindings_ofBindings, Bindings.get?_eq_value?, hstroke]
  rfl

/-- Behind the leader the key that gives the line up means nothing. -/
theorem parse_interrupt_of_armed (hfree : m.focus.any Focus.isHeld = false)
    (hleader : m.leader = .armed) :
    m.parse stroke = ({ m with leader := .idle, focus := none }, none) := by
  have hunbound : defaults.value? [escape, interruptCode] = none := by rfl
  rw [parse_of_armed hfree hleader hstroke, chord, htable, Keymap.bindings_ofBindings, hunbound]

/-- Otherwise it gives the line up, if no action in focus gets it. -/
theorem parse_interrupt_of_idle (hfree : m.focus.any Focus.isHeld = false)
    (hleader : m.leader = .idle) :
    m.parse stroke = ({ m with focus := none }, some (.plain .interrupt 1)) := by
  have hget := get?_interrupt htable hstroke
  rw [parse_of_idle hfree hleader (by rw [hget]; decide), hget]
  rfl

end Interrupt

end Emacs

/-- The mode answers a key as its dispatcher does. -/
theorem Mode.parse_emacs {m after : Emacs} {stroke : Stroke} {action? : Option Action}
    (h : m.parse stroke = (after, action?)) :
    (Mode.emacs m).parse stroke = (.emacs after, action?) := by
  rw [Mode.parse, h]
  rfl

/-! ## The modal dispatcher -/

namespace Vi

variable {m after : Vi} {stroke : Stroke} {action? : Option Action}

/-- A key leaves the dispatcher in a status that it can be in. -/
theorem status_mem_of_parsed (hadapted : Adapted m.table.bindings) (hstatus : m.status ∈ statuses)
    (h : Parsed m stroke after action?) : after.status ∈ statuses := by
  cases h with
  | routed => exact hstatus
  | resolved _ resolves =>
    cases resolves with
    | counted => exact hstatus
    | replaced => exact List.mem_of_elem_eq_true rfl
    | refused => exact List.mem_of_elem_eq_true rfl
    | bound _ _ found follows =>
      cases follows with
      | focused => exact hstatus
      | repeated => exact hstatus
      | acted _ _ _ once => exact hadapted.next_mem found once
    | typed => exact hstatus
    | lost => exact hstatus

/-- The next key is a command, and nothing was typed before it. -/
structure Calm (m : Vi) : Prop where
  status : m.status = .command
  count : m.count = none
  operatorCount : m.operatorCount = none
  focus : m.focus = none

/-- Where a character to replace is not waited for, escape leads to command status. -/
theorem entryOf_escape {status : Status} (hstatus : status ∈ statuses)
    (hreplace : status ≠ .replace) :
    ∃ command, (command = .viCommandMode ∨ command = .viCancel) ∧
      entryOf defaults status [escape] = some ⟨command, status, .command, .never⟩ := by
  have hall : ∀ status ∈ statuses, status ≠ .replace →
      entryOf defaults status [escape] =
        some ⟨if status = .edit then .viCommandMode else .viCancel, status, .command, .never⟩ := by
    simp only [entryOf_defaults]
    decide
  refine ⟨_, ?_, hall status hstatus hreplace⟩
  split
  · exact .inl rfl
  · exact .inr rfl

/-- **Escape takes everything back** that was typed before it, if no action in focus gets it. -/
theorem parse_escape (htable : m.table = .ofBindings defaults) (hstatus : m.status ∈ statuses)
    (hfree : m.focus.any Focus.isHeld = false) (hstroke : stroke.sequence = [escape]) :
    (m.parse stroke).1.Calm ∧
      ∀ action ∈ (m.parse stroke).2, ∃ command count, action = .plain command count ∧
        (command = .viCommandMode ∨ command = .viCancel) := by
  have huncounted : countDigit? { m with focus := none } stroke = none :=
    countDigit?_of_single hstroke rfl
  rw [parse_of_free hfree]
  by_cases hreplace : m.status = .replace
  · have hresolve : resolve { m with focus := none } stroke =
        ({ m.forgetCounts with status := .command, focus := none }, none) := by
      rw [resolve, huncounted]
      dsimp only
      rw [if_pos hreplace, replaceWith]
      dsimp only
      rw [Stroke.printable?_escape hstroke]
      rfl
    rw [hresolve]
    exact ⟨⟨rfl, rfl, rfl, rfl⟩, fun action haction => absurd haction (by simp)⟩
  · obtain ⟨command, hcommand, hentry⟩ := entryOf_escape hstatus hreplace
    rw [resolve_of_entry huncounted hreplace (by rw [htable, hstroke]; exact hentry)]
    rcases hcommand with rfl | rfl
    · refine ⟨⟨rfl, rfl, rfl, rfl⟩, fun action haction => ?_⟩
      cases haction
      exact ⟨_, _, rfl, .inl rfl⟩
    · refine ⟨⟨rfl, rfl, rfl, rfl⟩, fun action haction => ?_⟩
      cases haction
      exact ⟨_, _, rfl, .inr rfl⟩

theorem entryOf_edit_interrupt :
    entryOf defaults .edit [interruptCode] = some ⟨.interrupt, .edit, .edit, .never⟩ := by
  rw [entryOf_defaults]
  rfl

theorem entryOf_command_interrupt :
    entryOf defaults .command [interruptCode] = some ⟨.interrupt, .command, .command, .never⟩ := by
  rw [entryOf_defaults]
  rfl

/-- In command status the key that gives the line up does so. -/
theorem Calm.parse_interrupt (h : m.Calm) (htable : m.table = .ofBindings defaults)
    (hstroke : stroke.sequence = [interruptCode]) :
    ∃ after count, m.parse stroke = (after, some (.plain .interrupt count)) := by
  obtain ⟨hstatus, -, -, hfocus⟩ := h
  have huncounted : countDigit? { m with focus := none } stroke = none :=
    countDigit?_of_single hstroke rfl
  have hentry : entryOf m.table.bindings m.status stroke.sequence =
      some ⟨.interrupt, .command, .command, .never⟩ := by
    rw [htable, hstatus, hstroke]
    exact entryOf_command_interrupt
  have hreplace : m.status ≠ .replace := by
    rw [hstatus]
    decide
  have hparse : m.parse stroke =
      follow { m with focus := none } ⟨.interrupt, .command, .command, .never⟩ := by
    rw [parse_of_free (by rw [hfocus]; rfl), resolve_of_entry huncounted hreplace hentry]
  exact ⟨_, _, hparse⟩

end Vi

/-! ## Both -/

namespace Mode

/-- What is so in every state that keys lead to: the leader is idle while an action has the focus,
and the modal dispatcher is in one of its statuses. -/
def Steady : Mode → Prop
  | emacs m => m.leader = .idle ∨ m.focus.any Focus.isHeld = false
  | vi m => m.status ∈ Vi.statuses

variable {m after : Mode} {stroke : Stroke} {action? : Option Action}

theorem steady_start (mode : EditingMode) (report : DeviceReport) : (start mode report).Steady := by
  cases mode with
  | emacs => exact .inl rfl
  | vi => exact List.mem_of_elem_eq_true rfl

theorem steady_reset (m : Mode) : m.reset.Steady := by
  cases m with
  | emacs m => exact .inl rfl
  | vi m => exact List.mem_of_elem_eq_true rfl

/-- **A key leaves a mode steady**, and so does taking back the action it leads to. -/
theorem Steady.parse (h : m.Steady) (husual : m.Usual)
    (hparse : m.parse stroke = (after, action?)) :
    after.Steady ∧ ∀ action ∈ action?, ∀ applied, (after.takeBack applied).Steady := by
  cases m with
  | emacs m =>
    have hleader := m.leader_parse h stroke
    cases hparse
    refine ⟨?_, fun action haction applied => ?_⟩
    · exact hleader.imp_right fun hnone => congrArg (Option.any Focus.isHeld) hnone.2
    · rcases hleader with hidle | ⟨hnone, -⟩
      · exact .inl hidle
      · exact absurd (hnone.symm.trans haction) (by simp)
  | vi m =>
    have hadapted : Vi.Adapted m.table.bindings := by
      rw [husual.table_vi]
      exact .usual
    have hstatus := Vi.status_mem_of_parsed hadapted h (m.parsed stroke)
    cases hparse
    exact ⟨hstatus, fun _ _ _ => hstatus⟩

/-- The key that gives the line up is cut from the input in every state. -/
theorem Usual.exists_interrupt_active (h : m.Usual) :
    ∃ stroke ∈ m.active, stroke.sequence = [interruptCode] :=
  h.exists_active (by decide) Vi.entryOf_edit_interrupt

/-- To an action in focus it means the same in every state. -/
theorem Usual.textCommand?_interrupt (h : m.Usual) (hstroke : stroke.sequence = [interruptCode]) :
    m.textCommand? stroke = some .interrupt := by
  cases m with
  | emacs m => exact Emacs.get?_interrupt h.table_emacs hstroke
  | vi m =>
    rw [textCommand?, Vi.textCommand?, h.table_vi, Keymap.get?, Vi.bind_get?_eq_entryOf, hstroke,
      Keymap.bindings_ofBindings, Vi.entryOf_edit_interrupt]
    rfl

/-- To an action in focus of the modal dispatcher, escape ends the typing of text. -/
theorem Usual.textCommand?_escape {m : Vi} (h : (vi m).Usual)
    (hstroke : stroke.sequence = [escape]) : (vi m).textCommand? stroke = some .viCommandMode := by
  rw [textCommand?, Vi.textCommand?, h.table_vi, Keymap.get?, Vi.bind_get?_eq_entryOf, hstroke,
    Keymap.bindings_ofBindings, entryOf_edit_escape]
  rfl

end Mode

end PromptLine
