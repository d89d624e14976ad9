import PromptLine.Proofs.Action.PutBack
import PromptLine.Proofs.Editor.Operators

/-!
# Deleting and putting back

Of the commands that put text back there is one, after each deletion, that undoes it: `yank` where
text is typed, and in command mode `P` or `p`, depending on whether there is anything behind the
range.  For the operator `d` this is said of keystrokes.  A motion's key and `d` again are both
entries that do something at once, so that one lemma says what becomes of the desk, and the key
typed next finds the dispatcher without any count.
-/

namespace PromptLine

namespace Editor

/-- The two positions between which a key behind `d` takes text away: all of the line for `d` again,
and otherwise what lies between the cursor and where the motion leads. -/
inductive TakesAway (times : Nat) (b : LineBuffer) : Key → Nat × Nat → Prop
  | again : TakesAway times b (.char 'd') (0, b.length)
  | motion {key : Key} {command : Command} {motion : Motion}
      (bound : (key, command) ∈ Vi.motionKeys)
      (leads : command.motionFor? .delete = some motion) :
      TakesAway times b key (b.cursor, operatorTarget motion b.text times b.cursor)

/-- The keys of command status that put text back. -/
def pasteKeys : List (Char × Command) := [('P', .viPasteBefore), ('p', .viPasteAfter)]

section Keys

variable {e : Editor} {m : Vi} {operatorCount count : Option Nat} {desk : Desk} {stroke : Stroke}

theorem typing_of_command (hmode : e.mode = .vi m) (husual : e.mode.Usual)
    (hstatus : m.status = .command) (hfocus : e.mode.hasFocus = false) :
    e.Typing .command m.operatorCount m.count e.desk := by
  rw [hmode] at husual hfocus
  exact ⟨⟨m, hmode, husual.table_vi, hfocus, hstatus, rfl, rfl⟩, rfl⟩

/-- The key behind `d`, whichever of the two it is, takes away its range. -/
theorem TakesAway.typing {key : Key} {ends : Nat × Nat}
    (htakes : TakesAway (max (operatorCount.getD 1 * count.getD 1) 1) desk.buffer key ends)
    (h : e.Typing .delete operatorCount count desk) (hstroke : stroke.sequence = key.sequence)
    (hzero : key = .char '0' → count = none) :
    (e.press stroke).Typing .command none none (desk.applyRange true .delete ends.1 ends.2) := by
  cases htakes with
  | again =>
    have hsequence : stroke.sequence = [Vi.Operator.again .delete] := hstroke
    have hentry := Vi.entryOf_again .delete
    rw [← hsequence] at hentry
    have hdigit (c : Char) (hc : stroke.sequence = [c]) (hdigit : c.isDigit = true) :
        c = '0' ∧ count = none := by
      obtain rfl : 'd' = c := (List.cons.inj (hsequence.symm.trans hc)).1
      cases hdigit
    have happly : RangeAction.apply true
        ⟨.viWholeLine, .wholeLine, .delete, max (operatorCount.getD 1 * count.getD 1) 1⟩ desk =
          desk.applyRange true .delete 0 desk.buffer.length :=
      desk.apply_of_delete true rfl
    rw [← happly]
    exact h.entry (by decide) hentry ⟨rfl, by decide, rfl⟩ hdigit rfl (fun _ => rfl) rfl rfl
  | motion bound leads =>
    have hdelete : e.Typing Vi.Operator.delete.status operatorCount count desk := h
    obtain ⟨motion, hmotion, hpressed⟩ := hdelete.motion bound hstroke hzero rfl
    cases leads.symm.trans hmotion
    exact hpressed

/-- A key that puts text back does so once, if no count was typed. -/
theorem Typing.paste (h : e.Typing .command none none desk) {c : Char} {command : Command}
    (hkey : (c, command) ∈ pasteKeys) (hstroke : stroke.sequence = [c])
    (hgoes : (desk.putBack ⟨e.config, true⟩ command 1).outcome = .proceed) :
    (e.press stroke).desk = (desk.putBack ⟨e.config, true⟩ command 1).desk := by
  have hall : ∀ binding ∈ pasteKeys, binding.1.isDigit = false ∧
      binding.2.takesFocus = false ∧
        Action.ofCommand binding.2 .move 1 = .plain binding.2 1 ∧
          Vi.entryOf Vi.defaults .command [binding.1] =
            some ⟨binding.2, .command, .command, .always⟩ := by
    simp only [Vi.entryOf_defaults]
    decide
  obtain ⟨hletter, hplain, haction, hentry⟩ := hall (c, command) hkey
  have hdigit (d : Char) (hd : stroke.sequence = [d]) (hdigit : d.isDigit = true) :
      d = '0' ∧ (none : Option Nat) = none := by
    obtain rfl : c = d := (List.cons.inj (hstroke.symm.trans hd)).1
    cases hletter.symm.trans hdigit
  have hrun : desk.run ⟨e.config, true⟩ command 1 = desk.putBack ⟨e.config, true⟩ command 1 := by
    rcases List.mem_pair.mp hkey with hkey | hkey <;> cases hkey <;> rfl
  rw [← hstroke] at hentry
  have hevent : (desk.putBack ⟨e.config, true⟩ command 1).outcome.event? = none := by
    rw [hgoes]
    rfl
  exact (h.entry (by decide) hentry ⟨hplain, Status.noConfusion, rfl⟩ hdigit haction (fun _ => rfl)
    (congrArg (Prod.mk _) hrun) hevent).desk

/-- `d`, a count and what it is about, one key after another. -/
theorem typing_removed (hmode : e.mode = .vi m) (husual : e.mode.Usual)
    (hstatus : m.status = .command) (hfocus : e.mode.hasFocus = false) {between : Text}
    (hbetween : Vi.IsCount between) {key : Key} (hzero : key = .char '0' → between = [])
    {ends : Nat × Nat}
    (htakes : TakesAway (max (m.count.getD 1 * Vi.countOf between) 1) e.desk.buffer key ends)
    {strokes : List Stroke}
    (hstrokes : strokes.map Stroke.sequence = ['d'] :: (between.map ([·]) ++ [key.sequence])) :
    (strokes.foldl press e).Typing .command none none
      (e.desk.applyRange true .delete ends.1 ends.2) := by
  obtain ⟨operator, rest, rfl, hoperator, hrest⟩ := List.map_eq_cons_iff.mp hstrokes
  obtain ⟨digits, last, rfl, hdigits, hlast⟩ := List.map_eq_append_iff.mp hrest
  obtain ⟨stroke, rfl, hstroke⟩ := List.map_eq_singleton_iff.mp hlast
  have hwaits := ((typing_of_command hmode husual hstatus hfocus).operator .delete hoperator).digits
    rfl hdigits hbetween.isDigit (fun h => absurd h hbetween.leads)
  rw [Vi.foldl_extendCount_none] at hwaits
  rw [List.foldl_cons, List.foldl_append, List.foldl_cons, List.foldl_nil]
  refine htakes.typing hwaits hstroke fun hchar => ?_
  rw [hzero hchar]
  rfl

end Keys

/-- **Putting back undoes deleting.**  For a command that takes text away while text is typed, `yank`
brings the line back, with the cursor behind what was put in.  In command mode the line is brought
back by pasting before the cursor if there is a character behind the range, and after the cursor if
there is none: so it is for the deletion of any motion, and for what is typed, `d` with a motion or
with `d` again, and with any counts, and then `P` or `p`.  It does not matter where the cursor was,
in which direction the motion went, and what could be put back before. -/
theorem put_back_removed :
    (∀ (setting : Setting) (d : Desk) (command : Command) (operation : Status) (count : Nat)
      (r : RangeAction) (first last : Nat), setting.commandMode = false →
      d.buffer.masked = false → command.removal? count = some r →
      d.buffer.range (r.ends d.buffer) = (first, last) → first < last →
        let removed := d.after setting (.ofCommand command operation count)
        let back := removed.after setting (.ofCommand .yank .move 1)
        removed.buffer.text = d.buffer.text.take first ++ d.buffer.text.drop last ∧
          back.buffer.text = d.buffer.text ∧ back.buffer.cursor = last) ∧
    (∀ (setting : Setting) (d : Desk) (r : RangeAction) (first last : Nat),
      setting.commandMode = true → d.buffer.masked = false → r.operation = .delete →
      d.buffer.range (r.ends d.buffer) = (first, last) → first < last →
        let removed := d.after setting (.range r)
        removed.buffer.text = d.buffer.text.take first ++ d.buffer.text.drop last ∧
          (last < d.buffer.length →
            (removed.after setting (.ofCommand .viPasteBefore .move 1)).buffer.text =
              d.buffer.text) ∧
          (last = d.buffer.length →
            (removed.after setting (.ofCommand .viPasteAfter .move 1)).buffer.text =
              d.buffer.text)) ∧
    (∀ (e : Editor) (m : Vi) (between : Text) (key : Key) (ends : Nat × Nat) (first last : Nat)
      (strokes : List Stroke), e.mode = .vi m → e.mode.Usual → m.status = .command →
      e.mode.hasFocus = false → e.desk.buffer.masked = false → Vi.IsCount between →
      (key = .char '0' → between = []) →
      TakesAway (max (m.count.getD 1 * Vi.countOf between) 1) e.desk.buffer key ends →
      e.desk.buffer.range ends = (first, last) → first < last →
      strokes.map Stroke.sequence = ['d'] :: (between.map ([·]) ++ [key.sequence]) →
        let line := e.desk.buffer.text
        let removed := strokes.foldl press e
        removed.desk.buffer.text = line.take first ++ line.drop last ∧
          (∃ after, removed.mode = .vi after ∧ after.status = .command) ∧
          ∀ paste : Stroke,
            (paste.sequence = ['P'] → last < line.length →
              (removed.press paste).desk.buffer.text = line) ∧
            (paste.sequence = ['p'] → last = line.length →
              (removed.press paste).desk.buffer.text = line)) := by
  refine ⟨?yank, ?paste, ?typed⟩
  case yank =>
    intro setting d command operation count r first last hmode hmasked hremoval hrange hproper
      removed back
    have hremoved : Desk.Removed setting.commandMode first last d removed :=
      Desk.removed_after hremoval hmasked hrange hproper operation
    rw [hmode] at hremoved
    obtain ⟨-, htext, hcursor⟩ := hremoved.yank setting
    exact ⟨hremoved.text, htext, hcursor⟩
  case paste =>
    intro setting d r first last hmode hmasked hdelete hrange hproper removed
    have hremoved := Desk.removed_applyRange setting.commandMode hmasked hrange hproper
    rw [← Desk.apply_of_delete setting.commandMode hdelete] at hremoved
    change Desk.Removed setting.commandMode first last d removed at hremoved
    rw [hmode] at hremoved
    refine ⟨hremoved.text, fun hmore => ?_, fun hend => ?_⟩
    · exact (hremoved.pasteBefore setting hmore).2.1
    · exact (hremoved.pasteAfter setting hend).2.1
  case typed =>
    intro e m between key ends first last strokes hmode husual hstatus hfocus hmasked hbetween hzero
      htakes hrange hproper hstrokes line removed
    have htyping : removed.Typing .command none none _ :=
      typing_removed hmode husual hstatus hfocus hbetween hzero htakes hstrokes
    have hremoved := Desk.removed_applyRange true hmasked hrange hproper
    obtain ⟨⟨after, hafter, hawaits⟩, hdesk⟩ := id htyping
    refine ⟨?_, ⟨after, hafter, hawaits.status⟩, fun paste => ⟨fun hpaste hmore => ?_,
      fun hpaste hend => ?_⟩⟩
    · rw [hdesk]
      exact hremoved.text
    · obtain ⟨hgoes, htext, -⟩ := hremoved.pasteBefore ⟨removed.config, true⟩ hmore
      rw [htyping.paste (.head _) hpaste hgoes]
      exact htext
    · obtain ⟨hgoes, htext, -⟩ := hremoved.pasteAfter ⟨removed.config, true⟩ hend
      rw [htyping.paste (.tail _ (.head _)) hpaste hgoes]
      exact htext

/-- The last word of a line, taken away backwards from its end, or forwards by an operator; and all
of the line. -/
theorem put_back_removed_words :
    let setting : Setting := ⟨.default, false⟩
    let command : Setting := ⟨.default, true⟩
    let d : Desk := ⟨⟨['a', 'b', ' ', 'c', 'd'], 5, [], false⟩, .empty 10, .empty 10⟩
    let e : Editor := { new .default (.reliable .utf8) with
      mode := .vi { Vi.start .ansi with status := .command }
      desk := { d with buffer := d.buffer.place 3 } }
    let removed := [Stroke.ofChar 'd', .ofChar 'w'].foldl press e
    ((d.after setting (.ofCommand .backwardKillWord .move 1)).buffer.text = ['a', 'b', ' '] ∧
        ((d.after setting (.ofCommand .backwardKillWord .move 1)).after setting
          (.ofCommand .yank .move 1)).buffer.text = d.buffer.text ∧
        ((d.after setting (.ofCommand .backwardKillWord .move 1)).after setting
          (.ofCommand .yank .move 1)).buffer.cursor = 5) ∧
      ((d.after command (.range ⟨.viWholeLine, .wholeLine, .delete, 1⟩)).after command
        (.ofCommand .viPasteAfter .move 1)).buffer.text = d.buffer.text ∧
      removed.desk.buffer.text = ['a', 'b', ' '] ∧
        (removed.press (.ofChar 'p')).desk.buffer.text = e.desk.buffer.text := by
  intro setting command d e removed
  have hkilled := put_back_removed.1 setting d .backwardKillWord .move 1
    ⟨.backwardKillWord, .backwardWord, .delete, 1⟩ 3 5 rfl rfl rfl (by decide +kernel) (by decide)
  have hline := put_back_removed.2.1 command d ⟨.viWholeLine, .wholeLine, .delete, 1⟩ 0 5 rfl rfl rfl
    (by decide +kernel) (by decide)
  have hnone : Vi.IsCount [] := ⟨List.forall_mem_nil _, by decide⟩
  have hkey : (Key.char 'w', Command.viForwardWord) ∈ Vi.motionKeys := by decide
  have htakes : TakesAway (max (1 * Vi.countOf []) 1) e.desk.buffer (.char 'w')
      (3, operatorTarget (.nextWord false) e.desk.buffer.text 1 3) :=
    .motion hkey rfl
  obtain ⟨hremoved, -, hback⟩ := put_back_removed.2.2 e { Vi.start .ansi with status := .command } []
    (.char 'w') _ 3 5 [.ofChar 'd', .ofChar 'w'] rfl ⟨.vi, rfl⟩ rfl rfl rfl hnone (fun _ => rfl)
    htakes (by decide +kernel) (by decide) rfl
  exact ⟨hkilled, hline.2.2 rfl, hremoved, (hback (.ofChar 'p')).2 rfl rfl⟩

end Editor

end PromptLine
