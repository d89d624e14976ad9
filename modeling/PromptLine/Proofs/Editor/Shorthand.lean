import PromptLine.Proofs.Editor.Operators
import PromptLine.Proofs.Mode.Shorthand

/-!
# Typing a shorthand, or spelling it out

Typed with one count, a shorthand and its longer spelling leave the same desk, and dispatchers that
differ in the name of the remembered action.  The difference never shows: it is kept by every
keystroke that follows, the one that repeats the action included (`SameButName.keystroke`).
-/

namespace PromptLine

namespace Editor

section Keys

variable {e : Editor} {n : Vi} {desk : Desk} {stroke : Stroke}

/-- The key that makes the action. -/
theorem Stands.range {s : Vi.Shorthand} {m : Vi} {command : Command} {times : Nat}
    (h : e.Stands n desk)
    (hresolve : n.resolve stroke =
      (s.after m command times, some (.range (s.range command times)))) :
    (e.press stroke).mode = .vi (s.after m command times) ∧
      (e.press stroke).desk = (s.range command times).apply (s.operator != .change) desk := by
  obtain ⟨hmode, hstands⟩ := h.goesOn hresolve rfl (fun _ => rfl) rfl rfl
  have hcommand : ((s.after m command times).status != .edit) = (s.operator != .change) := by
    change (s.operator.next != .edit) = _
    cases s.operator <;> rfl
  rw [hcommand] at hstands
  exact ⟨hmode, hstands.desk⟩

variable {m : Vi} {s : Vi.Shorthand} {digits : Text} {strokes : List Stroke}

/-- The shorthand, typed from command status. -/
theorem Stands.shorthand (h : e.Stands m desk) (hb : Vi.Adapted m.table.bindings)
    (hstatus : m.status = .command) (hcount : m.count = none) (hoperator : m.operatorCount = none)
    (hs : s ∈ Vi.shorthands) (hdigits : Vi.IsCount digits)
    (hstrokes : strokes.map Stroke.sequence = digits.map ([·]) ++ [[s.key]]) :
    (strokes.foldl press e).mode = .vi (s.after m s.command (Vi.countOf digits)) ∧
      (strokes.foldl press e).desk =
        (s.range s.command (Vi.countOf digits)).apply (s.operator != .change) desk := by
  obtain ⟨first, last, rfl, hfirst, hlast⟩ := List.map_eq_append_iff.mp hstrokes
  obtain ⟨stroke, rfl, hstroke⟩ := List.map_eq_singleton_iff.mp hlast
  have hcounted := h.digits (by rw [hstatus]; rfl) hfirst hdigits.isDigit
    (fun hzero => absurd hzero hdigits.leads)
  rw [hcount, Vi.foldl_extendCount_none] at hcounted
  have hresolve := Vi.resolve_key (n := { m with count := Vi.countOf? digits }) hs hb hstatus
    h.focus hoperator hstroke
  have htimes : max ((Vi.countOf? digits).getD 1) 1 = Vi.countOf digits :=
    Nat.max_eq_left (Vi.one_le_countOf hdigits)
  rw [List.foldl_append]
  rw [htimes] at hresolve
  exact hcounted.range hresolve

/-- The longer spelling, typed from command status. -/
theorem Stands.spelledOut (h : e.Stands m desk) (hb : Vi.Adapted m.table.bindings)
    (hstatus : m.status = .command) (hcount : m.count = none) (hs : s ∈ Vi.shorthands)
    (hdigits : Vi.IsCount digits)
    (hstrokes : strokes.map Stroke.sequence =
      digits.map ([·]) ++ [s.operator.sequence, [s.last]]) :
    (strokes.foldl press e).mode = .vi (s.after m s.lastCommand (Vi.countOf digits)) ∧
      (strokes.foldl press e).desk =
        (s.range s.lastCommand (Vi.countOf digits)).apply (s.operator != .change) desk := by
  obtain ⟨first, rest, rfl, hfirst, hrest⟩ := List.map_eq_append_iff.mp hstrokes
  obtain ⟨operator, last, rfl, hoperator, hlast⟩ := List.map_eq_cons_iff.mp hrest
  obtain ⟨stroke, rfl, hstroke⟩ := List.map_eq_singleton_iff.mp hlast
  have hcounted := h.digits (by rw [hstatus]; rfl) hfirst hdigits.isDigit
    (fun hzero => absurd hzero hdigits.leads)
  rw [hcount, Vi.foldl_extendCount_none] at hcounted
  have hwaits := hcounted.operator s.operator hstatus (hb.entryOf_operator s.operator) hoperator
  have hresolve := Vi.resolve_last (n := { m with
    operatorCount := Vi.countOf? digits, count := none, status := s.operator.status }) hs hb rfl
    h.focus rfl hstroke
  have htimes : max ((Vi.countOf? digits).getD 1) 1 = Vi.countOf digits :=
    Nat.max_eq_left (Vi.one_le_countOf hdigits)
  rw [List.foldl_append]
  rw [htimes] at hresolve
  exact hwaits.range hresolve

end Keys

/-! ## What follows -/

/-- The second editor is the first, up to the name of what its dispatcher remembers, and up to where
its input comes from and its output goes to. -/
structure SameButName (first second : Editor) : Prop where
  mode : ∃ m command, first.mode = .vi m ∧ second.mode = .vi (m.renamed command)
  desk : second.desk = first.desk
  config : second.config = first.config

theorem takeBack_renamed (m : Vi) (name : Command) (action : Action) (again : Command) :
    ∃ after, (Mode.vi m).takeBack action = .vi after ∧
      (Mode.vi (m.renamed name)).takeBack (action.renamed again) = .vi (after.renamed name) := by
  refine ⟨_, rfl, ?_⟩
  rw [Mode.takeBack, Action.focusAfter_renamed]
  rfl

/-- **A keystroke does not tell names apart.** -/
theorem SameButName.keystroke {first second : Editor} (h : first.SameButName second)
    (stroke : Stroke) : (first.press stroke).SameButName (second.press stroke) := by
  obtain ⟨⟨m, command, hfirst, hsecond⟩, hdesk, hconfig⟩ := h
  have hkept : (second.press stroke).config = (first.press stroke).config :=
    (second.keeps_handle stroke).config.trans
      (hconfig.trans (first.keeps_handle stroke).config.symm)
  obtain ⟨⟨name, hafter⟩, ⟨again, haction⟩⟩ := Vi.sameButName_parse command m stroke
  rcases hparse : m.parse stroke with ⟨after, action?⟩
  rw [hparse] at hafter haction
  have hparsed : first.mode.parse stroke = (.vi after, action?) := by
    rw [hfirst]
    exact Mode.parse_vi hparse
  have hparsed' : second.mode.parse stroke =
      (.vi (after.renamed name), action?.map (Action.renamed again)) := by
    rw [hsecond]
    exact Mode.parse_vi (Prod.ext hafter haction)
  cases action? with
  | none =>
    obtain ⟨hmode, hsame⟩ := press_of_idle hparsed
    obtain ⟨hmode', hsame'⟩ := press_of_idle hparsed'
    exact ⟨⟨after, name, hmode, hmode'⟩, hsame'.trans (hdesk.trans hsame.symm), hkept⟩
  | some action =>
    rcases happly : action.apply ⟨first.config, (Mode.vi after).isCommandMode⟩ first.desk with
      ⟨applied, reaction⟩
    have happly' : (action.renamed again).apply
        ⟨second.config, (Mode.vi (after.renamed name)).isCommandMode⟩ second.desk =
          (applied.renamed again, reaction) := by
      have happly' := Action.apply_renamed again
        ⟨first.config, (Mode.vi after).isCommandMode⟩ action first.desk
      rw [happly] at happly'
      rw [hdesk, hconfig]
      exact happly'
    obtain ⟨taken, htaken, htaken'⟩ := takeBack_renamed after name applied again
    cases hevent : reaction.outcome.event? with
    | none =>
      obtain ⟨hmode, hsame⟩ := press_of_goesOn hparsed happly hevent
      obtain ⟨hmode', hsame'⟩ := press_of_goesOn hparsed' happly' hevent
      exact ⟨⟨taken, name, hmode.trans htaken, hmode'.trans htaken'⟩, hsame'.trans hsame.symm,
        hkept⟩
    | some event =>
      obtain ⟨hmode, hsame⟩ := press_of_ends hparsed happly hevent
      obtain ⟨hmode', hsame'⟩ := press_of_ends hparsed' happly' hevent
      rw [htaken] at hmode
      rw [htaken'] at hmode'
      exact ⟨⟨taken.reset, name, hmode, hmode'⟩, hsame'.trans hsame.symm, hkept⟩

/-- **No keys tell names apart.** -/
theorem SameButName.keystrokes {first second : Editor} (h : first.SameButName second)
    (strokes : List Stroke) :
    (strokes.foldl press first).SameButName (strokes.foldl press second) := by
  induction strokes generalizing first second with
  | nil => exact h
  | cons stroke rest ih => exact ih (h.keystroke stroke)

theorem config_foldl_press (e : Editor) (strokes : List Stroke) :
    (strokes.foldl press e).config = e.config := by
  induction strokes generalizing e with
  | nil => rfl
  | cons stroke rest ih => exact (ih (e.press stroke)).trans (e.keeps_handle stroke).config

/-- **A shorthand is what it stands for.**  From command status, with any count or none, the
shorthand and its longer spelling leave one desk, which is the one that the range action makes of
the line; the dispatchers agree in everything but the name of the action that they remember.  Every
key that is typed afterwards, the repeat key too, finds and leaves the same line. -/
theorem foldl_press_shorthand {e : Editor} {m : Vi} (hmode : e.mode = .vi m)
    (hb : Vi.Adapted m.table.bindings) (hstatus : m.status = .command) (hcount : m.count = none)
    (hoperator : m.operatorCount = none) (hfocus : e.mode.hasFocus = false) {s : Vi.Shorthand}
    (hs : s ∈ Vi.shorthands) {digits : Text} (hdigits : Vi.IsCount digits)
    {short long : List Stroke}
    (hshort : short.map Stroke.sequence = digits.map ([·]) ++ [[s.key]])
    (hlong : long.map Stroke.sequence = digits.map ([·]) ++ [s.operator.sequence, [s.last]]) :
    let times := Vi.countOf digits
    let first := short.foldl press e
    let second := long.foldl press e
    first.mode = .vi (s.after m s.command times) ∧
      second.mode = .vi (s.after m s.lastCommand times) ∧
      first.desk = (s.range s.command times).apply (s.operator != .change) e.desk ∧
      second.desk = first.desk ∧
      ∀ more : List Stroke,
        (more.foldl press second).desk = (more.foldl press first).desk ∧
          ∃ later command, (more.foldl press first).mode = .vi later ∧
            (more.foldl press second).mode = .vi (later.renamed command) := by
  intro times first second
  have hstands : e.Stands { m with focus := none } e.desk := by
    rw [hmode] at hfocus
    exact ⟨⟨m, hmode, hfocus, rfl⟩, rfl⟩
  obtain ⟨hfirst, hdone⟩ := hstands.shorthand hb hstatus hcount hoperator hs hdigits hshort
  obtain ⟨hsecond, hdone'⟩ := hstands.spelledOut hb hstatus hcount hs hdigits hlong
  have hdesk : second.desk = first.desk := hdone'.trans hdone.symm
  have hsame : first.SameButName second :=
    ⟨⟨s.after m s.command times, s.lastCommand, hfirst, hsecond⟩, hdesk,
      (e.config_foldl_press long).trans (e.config_foldl_press short).symm⟩
  refine ⟨hfirst, hsecond, hdone, hdesk, fun more => ?_⟩
  obtain ⟨hlater, hdesk, -⟩ := hsame.keystrokes more
  exact ⟨hdesk, hlater⟩

/-- Three characters at the end of a line, of which there are two; and then the repeat key. -/
theorem foldl_press_delete_three :
    let e := { new .default (.reliable .utf8) with
      mode := .vi { Vi.start .ansi with status := .command }
      desk := ⟨⟨"abcd".toList, 2, [], false⟩, .empty 10, .empty 10⟩ }
    let first := [Stroke.ofChar '3', .ofChar 'x'].foldl press e
    let second := [Stroke.ofChar '3', .ofChar 'd', .ofChar 'l'].foldl press e
    first.desk.buffer.text = "ab".toList ∧ first.desk.buffer.cursor = 1 ∧
      second.desk = first.desk ∧
      (second.press (.ofChar '.')).desk = (first.press (.ofChar '.')).desk := by
  intro e first second
  have hcount : Vi.IsCount ['3'] := ⟨List.forall_mem_singleton.mpr rfl, by decide⟩
  have hshort : [Stroke.ofChar '3', .ofChar 'x'].map Stroke.sequence =
      ['3'].map ([·]) ++ [['x']] := rfl
  have hlong : [Stroke.ofChar '3', .ofChar 'd', .ofChar 'l'].map Stroke.sequence =
      ['3'].map ([·]) ++ [['d'], ['l']] := rfl
  obtain ⟨-, -, hdone, hdesk, hmore⟩ := foldl_press_shorthand (e := e) rfl (.remap .ansi) rfl rfl
    rfl rfl (.head _) hcount hshort hlong
  have hdone : first.desk = RangeAction.apply true ⟨.viDeleteChar, .forwardChar, .delete, 3⟩ e.desk :=
    hdone
  have hresult : first.desk.buffer.text = "ab".toList ∧ first.desk.buffer.cursor = 1 := by
    rw [hdone]
    decide +kernel
  exact ⟨hresult.1, hresult.2, hdesk, (hmore [.ofChar '.']).1⟩

end Editor

end PromptLine
