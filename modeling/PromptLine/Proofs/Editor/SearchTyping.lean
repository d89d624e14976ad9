import PromptLine.Proofs.Action.CommandCursor
import PromptLine.Proofs.Editor.ChunkBoundaries
import PromptLine.Proofs.Editor.FocusedKeys

/-!
# What is typed into a search

A search in focus takes text, and gets it key by key, as the mode cuts the input.  Where the search
was begun from text entry, keys are cut as text: each character is a key, and the term grows by just
what is typed.  Where it was begun in command status, keys are still cut as commands.  There a `g`
is held back until the next character is known, and a `gU` or `gu` is one key, which is no character
and ends the search.  Text without these two arrives whole.

`Searching` is the invariant: the term and what is not cut yet make up what was typed.
-/

namespace PromptLine

namespace Search

variable {s : Search} {stroke : Stroke} {c : Char}

theorem lookOn_keeps (setting : Setting) (s : Search) (d : Desk) :
    (s.lookOn setting d).1.term = s.term ∧ (s.lookOn setting d).1.focused = s.focused := by
  rw [lookOn, look]
  dsimp only
  split
  · exact ⟨rfl, rfl⟩
  · split <;> exact ⟨rfl, rfl⟩

/-- A plain character that is bound to nothing belongs to the term. -/
theorem input_of_plain (hstroke : stroke.sequence = [c]) (hplain : Unicode.isControl c = false) :
    s.input none stroke = { s with term := s.term ++ [c], step := s.stepOn } := by
  unfold input
  dsimp only
  rw [Stroke.printable?_of_plain hstroke hplain]

/-- Such a character is looked for, and the search goes on. -/
theorem apply_input_of_plain (hstroke : stroke.sequence = [c])
    (hplain : Unicode.isControl c = false) (setting : Setting) (d : Desk) :
    ((s.input none stroke).apply setting d).1.term = s.term ++ [c] ∧
      ((s.input none stroke).apply setting d).1.focused = s.focused ∧
        ((s.input none stroke).apply setting d).2.outcome.event? = none := by
  have hlook : (s.input none stroke).apply setting d = (s.input none stroke).lookOn setting d := by
    rw [input_of_plain hstroke hplain, apply, stepOn]
    cases s.direction <;> rfl
  obtain ⟨hterm, hfocused⟩ := (s.input none stroke).lookOn_keeps setting d
  rw [hlook]
  refine ⟨hterm.trans ?_, hfocused.trans ?_, event?_lookOn setting _ d⟩
  · rw [input_of_plain hstroke hplain]
  · rw [input_of_plain hstroke hplain]

end Search

namespace Editor

/-- A search has the focus.  Its term and the input that is not cut yet make up the text, and what
is still to come is plain as well. -/
structure Searching (e : Editor) (text coming : Text) : Prop where
  usual : e.mode.Usual
  synced : e.Synced
  plain : e.mode.Plain (e.input.pending ++ coming)
  search : ∃ s : Search, e.mode.focus? = some (.search s) ∧ s.focused = true ∧
    s.term ++ e.input.pending = text

variable {e : Editor} {text coming : Text}

/-- **A key that is cut from plain text goes into the term.** -/
theorem Searching.handle (h : e.Searching text coming) {stroke : Stroke} {input : KeyInput}
    (hnext : e.input.next? = some (stroke, input)) :
    (Editor.handle { e with input := input } stroke).1.Searching text coming := by
  obtain ⟨s, hfocus, hheld, htext⟩ := h.search
  have hpending := h.plain.of_infix (List.prefix_append e.input.pending coming).isInfix
  obtain ⟨c, hstroke, hplain, htaken⟩ := hpending.next? h.usual h.synced hnext
  -- the search gets the key, and goes on
  obtain ⟨hterm, hfocused, hevent⟩ :=
    Search.apply_input_of_plain (s := s) hstroke hplain e.setting e.desk
  rcases happly : (s.input none stroke).apply e.setting e.desk with ⟨found, reaction⟩
  rw [happly] at hterm hfocused hevent
  have hmode : (Editor.handle { e with input := input } stroke).1.mode =
      e.mode.refocus (.search found) := by
    have happlied : ((Focus.search s).input (e.mode.textCommand? stroke) stroke).apply e.setting
        e.desk = (.search found, reaction) := by
      rw [h.usual.textCommand?_of_plain hstroke hplain, Focus.input, Focus.apply, happly]
    exact (press_taken (e := { e with input := input }) hfocus hheld happlied hevent).1
  have hrest : (Editor.handle { e with input := input } stroke).1.input.pending = input.pending :=
    pending_handle _ stroke
  refine ⟨?_, synced_handle _ stroke, ?_, found, ?_, hfocused.trans hheld, ?_⟩
  · obtain ⟨mode, husual⟩ := h.usual
    refine ⟨mode, ?_⟩
    rw [hmode, Mode.pristine_refocus, husual]
  · rw [hmode, hrest]
    refine (h.plain.of_infix ?_).refocus _
    rw [htaken]
    exact (List.suffix_cons c _).isInfix
  · rw [hmode, Mode.focus?_refocus]
  · rw [hterm, hrest, ← htext, htaken, List.append_assoc, List.singleton_append]

/-- Text arrives, of which more is to come. -/
theorem Searching.receive {now later : Text} (h : e.Searching text (now ++ later))
    (decoder : Decoder) : (e.receive decoder now).Searching (text ++ now) later := by
  obtain ⟨s, hfocus, hheld, htext⟩ := h.search
  refine ⟨h.usual, h.synced, ?_, s, hfocus, hheld, ?_⟩
  · have hplain := h.plain
    rwa [← List.append_assoc] at hplain
  · rw [← htext, List.append_assoc]
    rfl

theorem Searching.run (h : e.Searching text coming) : e.run.1.Searching text coming := by
  have hrun := runs_run e
  generalize e.run.1 = after, e.run.2 = result at hrun ⊢
  exact hrun.preserves (fun _ _ _ hmiddle hnext => Searching.handle hmiddle hnext) h

/-- **Plain text that is written goes into the term**, however it is cut into chunks. -/
theorem Searching.foldl_write {chunks : List (List UInt8)} (h : e.Searching text coming)
    (hrest : e.decoder.AtRest) (herror : (e.decoder.decode chunks.flatten).error = none)
    (hcoming : (e.decoder.decode chunks.flatten).text = coming) :
    (chunks.foldl (fun e bytes => (e.write bytes).1) e).Searching (text ++ coming) [] := by
  induction chunks generalizing e text coming with
  | nil =>
    rw [List.flatten_nil, Decoder.decode_nil hrest] at hcoming
    subst hcoming
    rw [List.append_nil]
    exact h
  | cons bytes rest ih =>
    rw [List.flatten_cons] at herror hcoming
    obtain ⟨hfirst, hsecond, happend⟩ := Decoder.decode_append_eq herror
    rw [happend] at hcoming
    subst hcoming
    have hwritten : (e.write bytes).1.Searching (text ++ (e.decoder.decode bytes).text)
        ((e.decoder.decode bytes).decoder.decode rest.flatten).text := by
      rw [write_of_decoded hfirst]
      exact (h.receive (e.decoder.decode bytes).decoder).run
    have hdecoder : (e.write bytes).1.decoder = (e.decoder.decode bytes).decoder := by
      rw [write_of_decoded hfirst]
      exact (runs_run _).keeps.decoder
    rw [List.foldl_cons, ← List.append_assoc]
    refine ih hwritten ?_ ?_ ?_
    · rw [hdecoder]
      exact Decoder.atRest_decode hfirst
    · rw [hdecoder]
      exact hsecond
    · rw [hdecoder]

/-- **A search receives the text that is typed.**  It keeps the focus while plain text is written,
and its term and what is not cut yet make up all that was written.  In command status plain text is
text without the keys `gU` and `gu`. -/
theorem search_receives_text (husual : e.mode.Usual) (hsynced : e.Synced) {s : Search}
    (hfocus : e.mode.focus? = some (.search s)) (hheld : s.focused = true)
    (hrest : e.decoder.AtRest) {chunks : List (List UInt8)} {text : Text}
    (herror : (e.decoder.decode chunks.flatten).error = none)
    (htext : (e.decoder.decode chunks.flatten).text = text)
    (hplain : e.mode.Plain (e.input.pending ++ text)) :
    let after := chunks.foldl (fun e bytes => (e.write bytes).1) e
    ∃ found : Search, after.mode.focus? = some (.search found) ∧ found.focused = true ∧
      found.term ++ after.input.pending = s.term ++ e.input.pending ++ text := by
  have hstart : e.Searching (s.term ++ e.input.pending) text :=
    ⟨husual, hsynced, hplain, s, hfocus, hheld, rfl⟩
  exact (hstart.foldl_write hrest herror htext).search

/-- In command status a `g` at the end of what was written is held back, and belongs to the text. -/
theorem search_receives_held_key :
    let m := { Vi.start .ansi with status := .command, focus := some (.search (.new .reverse)) }
    let e := { new .default (.reliable .utf8) with mode := .vi m, input := .start m.keys }
    let after := [[0x61], [0x62, 0x67]].foldl (fun e bytes => (e.write bytes).1) e
    ∃ found : Search, after.mode.focus? = some (.search found) ∧ found.focused = true ∧
      found.term ++ after.input.pending = ['a', 'b', 'g'] := by
  intro m e after
  have hdecoded : ((Decoder.start .utf8).decode [[0x61], [0x62, 0x67]].flatten).error = none ∧
      ((Decoder.start .utf8).decode [[0x61], [0x62, 0x67]].flatten).text = ['a', 'b', 'g'] := by
    decide +kernel
  have hplain : e.mode.Plain (e.input.pending ++ ['a', 'b', 'g']) := by
    refine ⟨?_, fun _ => ⟨by decide, by decide⟩⟩
    rintro c (_ | ⟨_, _ | ⟨_, _ | ⟨_, hnil⟩⟩⟩)
    · rfl
    · rfl
    · rfl
    · exact absurd hnil List.not_mem_nil
  exact search_receives_text (e := e) ⟨.vi, rfl⟩ rfl rfl rfl (Decoder.atRest_start .utf8)
    hdecoded.1 hdecoded.2 hplain

/-- The key `gU` ends a search that was begun in command status. -/
theorem search_loses_operator_key :
    let e := ((new { Config.default with editingMode := .vi } (.reliable .utf8)).write
      [0x1B, 0x2F]).1
    e.mode.focus? = some (.search (.new .reverse)) ∧ e.input.pending = [] ∧
      (e.write [0x67, 0x55]).1.mode.hasFocus = false := by
  decide +kernel

end Editor

end PromptLine
