import PromptLine.Proofs.Editor.Keystrokes
import PromptLine.Proofs.Mode.TextEntry

/-!
# Keys for an action in focus

While an action has the focus, a keystroke is between the action and the desk.  `Focus.Takes` says
what the two make of keystrokes by themselves: each is handed to the action once, the action is
applied, and that goes on until the action lets go of the focus or ends the line.  No mode occurs in
it, besides what a key means where text is typed.

An editor does just that, and its mode waits (`taken_by_focus`).  Whatever the mode was in the
middle of when the action took the focus, it is in the middle of when the focus is given back, and
the next key finds it there.  An action that quotes takes one key.
-/

namespace PromptLine

namespace Mode

variable {m : Mode} {f : Focus}

@[simp] theorem textCommand?_refocus (m : Mode) (f : Focus) (stroke : Stroke) :
    (m.refocus f).textCommand? stroke = m.textCommand? stroke := by
  cases m <;> rfl

@[simp] theorem isCommandMode_refocus (m : Mode) (f : Focus) :
    (m.refocus f).isCommandMode = m.isCommandMode := by
  cases m <;> rfl

@[simp] theorem refocus_refocus (m : Mode) (f g : Focus) :
    (m.refocus f).refocus g = m.refocus g := by
  cases m <;> rfl

@[simp] theorem unfocused_refocus (m : Mode) (f : Focus) :
    (m.refocus f).unfocused = m.unfocused := by
  cases m <;> rfl

theorem refocus_of_focus? (h : m.focus? = some f) : m.refocus f = m := by
  cases m with
  | emacs m =>
    have hfocus : m.focus = some f := h
    rw [refocus, ← hfocus]
  | vi m =>
    have hfocus : m.focus = some f := h
    rw [refocus, ← hfocus]

/-- An action that has let go of the focus makes no difference to a key. -/
theorem parse_of_released (hfocus : m.focus? = some f) (hreleased : f.isHeld = false)
    (stroke : Stroke) : m.parse stroke = m.unfocused.parse stroke := by
  have hfree : (some f).any Focus.isHeld = false := hreleased
  have hroute := Focus.route_of_free hfree
  cases m with
  | emacs m =>
    have hcurrent : m.focus = some f := hfocus
    rw [parse, Emacs.parse, hcurrent, hroute]
    rfl
  | vi m =>
    have hcurrent : m.focus = some f := hfocus
    rw [parse, Vi.parse, hcurrent, hroute]
    rfl

end Mode

/-! ## What an action makes of keys -/

/-- Key by key, what an action that has the focus makes of itself and the desk.  A key is handed to
it while it holds the focus, with what the key means to it, and then it is applied, and the line
goes on. -/
inductive Focus.Takes (setting : Setting) (meaning : Stroke → Option Command) (f : Focus)
    (d : Desk) : List Stroke → Focus → Desk → Prop
  | none : Takes setting meaning f d [] f d
  | key {keys : List Stroke} {stroke : Stroke} {g next : Focus} {now : Desk} {reaction : Reaction}
      (before : Takes setting meaning f d keys g now) (held : g.isHeld = true)
      (applied : (g.input (meaning stroke) stroke).apply setting now = (next, reaction))
      (goesOn : reaction.outcome.event? = none) :
      Takes setting meaning f d (keys ++ [stroke]) next reaction.desk

namespace Focus

variable {setting : Setting} {meaning : Stroke → Option Command} {f g : Focus} {d now : Desk}
  {taken : List Stroke}

/-- What happens if an action takes no more of the keys that are left. -/
def Stops (setting : Setting) (meaning : Stroke → Option Command) (g : Focus) (now : Desk) :
    List Stroke → Prop
  | [] => True
  | stroke :: _ => g.isHeld = false ∨
      (((g.input (meaning stroke) stroke).apply setting now).2.outcome.event?).isSome = true

/-- **An action takes keys as long as it can.** -/
theorem Takes.exists_stops (h : Takes setting meaning f d taken g now) (keys : List Stroke) :
    ∃ (more left : List Stroke) (last : Focus) (after : Desk), keys = more ++ left ∧
      Takes setting meaning f d (taken ++ more) last after ∧
        Stops setting meaning last after left := by
  induction keys generalizing taken g now with
  | nil => exact ⟨[], [], g, now, rfl, (List.append_nil taken).symm ▸ h, trivial⟩
  | cons stroke rest ih =>
    by_cases hstops : Stops setting meaning g now (stroke :: rest)
    · exact ⟨[], stroke :: rest, g, now, rfl, (List.append_nil taken).symm ▸ h, hstops⟩
    · obtain ⟨hheld, hgoesOn⟩ := not_or.mp hstops
      rw [Bool.not_eq_false] at hheld
      rw [Option.not_isSome_iff_eq_none] at hgoesOn
      obtain ⟨more, left, last, after, rfl, htakes, hlast⟩ := ih (h.key hheld rfl hgoesOn)
      refine ⟨stroke :: more, left, last, after, rfl, ?_, hlast⟩
      rwa [List.append_assoc, List.singleton_append] at htakes

end Focus

namespace Editor

variable {e : Editor} {f g : Focus} {desk : Desk} {taken : List Stroke}

/-! ## One key -/

/-- A key that an action in focus takes changes the action, and the desk as the action does. -/
theorem press_taken {next : Focus} {reaction : Reaction} {stroke : Stroke}
    (hfocus : e.mode.focus? = some f) (hheld : f.isHeld = true)
    (happly : (f.input (e.mode.textCommand? stroke) stroke).apply e.setting e.desk =
      (next, reaction)) (hgoesOn : reaction.outcome.event? = none) :
    (e.press stroke).mode = e.mode.refocus next ∧ (e.press stroke).desk = reaction.desk := by
  let asked := f.input (e.mode.textCommand? stroke) stroke
  have happlied : (Action.focus asked).apply ⟨e.config, (e.mode.refocus asked).isCommandMode⟩
      e.desk = (.focus next, reaction) := by
    rw [Mode.isCommandMode_refocus]
    change (Action.focus asked).apply e.setting e.desk = _
    rw [Action.apply, happly]
  obtain ⟨hmode, hdesk⟩ := press_of_goesOn (Mode.parse_of_held hfocus hheld stroke) happlied hgoesOn
  exact ⟨hmode.trans (Mode.takeBack_refocus _ _ _), hdesk⟩

/-! ## All keys -/

/-- **The editor does what the action makes of the keys**, and nothing else. -/
theorem foldl_press_taken (hfocus : e.mode.focus? = some f)
    (h : f.Takes e.setting e.mode.textCommand? e.desk taken g desk) :
    (taken.foldl press e).mode = e.mode.refocus g ∧ (taken.foldl press e).desk = desk ∧
      (taken.foldl press e).config = e.config := by
  induction h with
  | none => exact ⟨(Mode.refocus_of_focus? hfocus).symm, rfl, rfl⟩
  | @key keys stroke g next now reaction before held applied goesOn ih =>
    obtain ⟨hmode, hdesk, hconfig⟩ := ih
    rw [List.foldl_append, List.foldl_cons, List.foldl_nil]
    generalize keys.foldl press e = middle at hmode hdesk hconfig ⊢
    have hsetting : middle.setting = e.setting := by
      rw [setting, hmode, Mode.isCommandMode_refocus, hconfig, setting]
    have happly : (g.input (middle.mode.textCommand? stroke) stroke).apply middle.setting
        middle.desk = (next, reaction) := by
      rw [hsetting, hdesk, hmode, Mode.textCommand?_refocus]
      exact applied
    have hheldBy : middle.mode.focus? = some g := by
      rw [hmode, Mode.focus?_refocus]
    obtain ⟨hnext, hafter⟩ := press_taken hheldBy held happly goesOn
    refine ⟨?_, hafter, (keeps_handle middle stroke).config.trans hconfig⟩
    rw [hnext, hmode, Mode.refocus_refocus]

/-- A key that finds the focus given back is dealt with as if no action had ever had it. -/
theorem handle_of_released (hfocus : e.mode.focus? = some f) (hreleased : f.isHeld = false)
    (stroke : Stroke) : e.handle stroke = handle { e with mode := e.mode.unfocused } stroke := by
  rw [handle, handle, perform, perform, Mode.parse_of_released hfocus hreleased]

/-- **What becomes of the keys while an action has the focus**, from any state and for any keys.

At every moment until it lets go or ends the line, the mode is the one there was, but for the
action, and the desk is what the action made of it.  If the focus is held at that moment, the next
key is handed to the action, once, and leads to nothing else; if it is not, the next key is dealt
with as in the mode there was, with no action in focus.  However many keys there are, one of these
moments is the last before the keys are at an end, the focus is given back, or the line is ended.

An action that quotes takes one key and gives the focus back, and the line has the code points of
the key where the cursor was. -/
theorem taken_by_focus (hfocus : e.mode.focus? = some f) (hheld : f.isHeld = true) :
    let Takes := f.Takes e.setting e.mode.textCommand? e.desk
    (∀ taken g desk, Takes taken g desk →
      let after := taken.foldl press e
      after.mode = e.mode.refocus g ∧ after.desk = desk ∧
        (g.isHeld = true → ∀ stroke,
          let next := g.input (e.mode.textCommand? stroke) stroke
          after.mode.parse stroke = (e.mode.refocus next, some (.focus next))) ∧
        (g.isHeld = false → ∀ stroke,
          after.mode.parse stroke = e.mode.unfocused.parse stroke ∧
            after.handle stroke = handle { after with mode := e.mode.unfocused } stroke)) ∧
    (∀ keys, ∃ taken left g desk, keys = taken ++ left ∧ Takes taken g desk ∧
      Focus.Stops e.setting e.mode.textCommand? g desk left) ∧
    (∀ q, f = .quoted q → ∀ stroke, ∃ desk, Takes [stroke] (.quoted ⟨none, true⟩) desk ∧
      desk.buffer.text = e.desk.buffer.before ++ stroke.sequence ++ e.desk.buffer.after ∧
        desk.buffer.cursor = e.desk.buffer.cursor + stroke.length ∧
          desk.kills = e.desk.kills ∧ desk.history = e.desk.history) := by
  intro Takes
  refine ⟨fun taken g desk htakes => ?_, fun keys => ?_, ?_⟩
  · obtain ⟨hmode, hdesk, -⟩ := foldl_press_taken hfocus htakes
    have hafter : (taken.foldl press e).mode.focus? = some g := by
      rw [hmode, Mode.focus?_refocus]
    refine ⟨hmode, hdesk, fun hg stroke => ?_, fun hg stroke => ⟨?_, ?_⟩⟩
    · rw [Mode.parse_of_held hafter hg, hmode, Mode.textCommand?_refocus, Mode.refocus_refocus]
    · rw [Mode.parse_of_released hafter hg, hmode, Mode.unfocused_refocus]
    · rw [handle_of_released hafter hg, hmode, Mode.unfocused_refocus]
  · exact Focus.Takes.none.exists_stops keys
  · rintro q rfl stroke
    have htakes : Takes ([] ++ [stroke]) _ _ := Focus.Takes.none.key hheld rfl rfl
    exact ⟨_, htakes, rfl, rfl, rfl, rfl⟩

/-- Escape is quoted in the middle of a change, and the next escape is a command. -/
theorem taken_by_quoting :
    let e := ((new { Config.default with editingMode := .vi } (.reliable .utf8)).write
      [0x61, 0x62, 0x1B, 0x78, 0x69, 0x16]).1
    let after := e.press (.ofChar escape)
    e.mode.focus? = some (.quoted .new) ∧
      after.mode = e.mode.refocus (.quoted ⟨none, true⟩) ∧
        after.desk.buffer.text = [escape, 'a'] ∧
          after.mode.parse (.ofChar escape) = e.mode.unfocused.parse (.ofChar escape) := by
  intro e after
  have hfocus : e.mode.focus? = some (.quoted .new) := by decide +kernel
  have htext : e.desk.buffer.before = [] ∧ e.desk.buffer.after = ['a'] := by decide +kernel
  obtain ⟨hmoments, -, hquotes⟩ := taken_by_focus hfocus rfl
  obtain ⟨desk, htakes, hinserted, -⟩ := hquotes .new rfl (.ofChar escape)
  obtain ⟨hmode, hdesk, -, hreleased⟩ := hmoments _ _ _ htakes
  refine ⟨hfocus, hmode, ?_, (hreleased rfl (.ofChar escape)).1⟩
  rw [htext.1, htext.2] at hinserted
  exact (congrArg (fun d : Desk => d.buffer.text) hdesk).trans hinserted

end Editor

end PromptLine
