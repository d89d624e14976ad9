import PromptLine.Proofs.Charset.RoundTrip
import PromptLine.Proofs.Editor.Record
import PromptLine.Proofs.Mode.TextEntry

/-!
# What is typed is what is committed

Text without control codes goes through an editor unchanged.  Its bytes are decoded to the text,
wherever they are cut; the mode cuts the text into its characters, and makes an insertion of each;
and the insertions, one behind the other, are the insertion of the text.  Enter then commits the
line, and the listener hears of it.

That holds on any machine while there is a column left for the cursor.  Where there is none, a machine
that checks its sums has come to a fault and commits nothing (`checked_serveAll_iff`).

`TakesText` is the invariant between two characters, and `Typed` is what has become of the editor
since the first of them.  An action that has let go of the focus is forgotten with the first
character; nothing else of the mode changes.
-/

namespace PromptLine

/-! ## Inserting character by character -/

namespace Desk

/-- The desk after a text was typed, character by character. -/
def typed (d : Desk) (text : Text) : Desk :=
  text.foldl (fun d c => d.withBuffer (d.buffer.save.insert [c])) d

theorem typed_append (d : Desk) (first second : Text) :
    d.typed (first ++ second) = (d.typed first).typed second :=
  List.foldl_append

/-- **Typing a text inserts it.**  What was saved for undoing is all that differs. -/
theorem typed_eq (d : Desk) (text : Text) :
    ∃ saved, d.typed text = d.withBuffer { d.buffer.insert text with saved := saved } := by
  induction text generalizing d with
  | nil =>
    refine ⟨d.buffer.saved, ?_⟩
    rw [d.buffer.insert_nil]
    rfl
  | cons c rest ih =>
    obtain ⟨saved, hrest⟩ := ih (d.withBuffer (d.buffer.save.insert [c]))
    refine ⟨saved, hrest.trans ?_⟩
    have hinsert := d.buffer.insert_insert [c] rest
    rw [List.singleton_append] at hinsert
    rw [← hinsert]
    rfl

end Desk

namespace Editor

/-! ## What is asked of the editor -/

/-- Binds sequence after sequence, up to the first one that is refused. -/
def addAll (e : Editor) : List (Text × Command) → Except BindingError Editor
  | [] => .ok e
  | (sequence, command) :: rest =>
    match e.addCommand sequence command with
    | .error error => .error error
    | .ok e => addAll e rest

/-- Writes chunk after chunk, up to the first one that fails, and answers with all outcomes. -/
def writeAll (e : Editor) : List (List UInt8) → Editor × Except EditorError (List Outcome)
  | [] => (e, .ok [])
  | chunk :: rest =>
    match e.write chunk with
    | (e, .error error) => (e, .error error)
    | (e, .ok outcomes) => ((writeAll e rest).1, (writeAll e rest).2.map (outcomes ++ ·))

/-! ## Between two characters -/

/-- The next key is one of a text, and the screen will not fail. -/
structure TakesText (e : Editor) : Prop where
  mode : e.mode.EntersText
  synced : e.Synced
  reliable : e.sink.Reliable

/-- The editor after a text was typed into the line of another one. -/
structure Typed (e after : Editor) (text : Text) : Prop where
  mode : after.mode = e.mode ∨ after.mode = e.mode.unfocused
  desk : after.desk = e.desk.typed text
  heard : after.heard = e.heard

variable {e : Editor}

theorem Typed.refl (e : Editor) : e.Typed e [] := ⟨.inl rfl, rfl, rfl⟩

theorem Typed.trans {middle after : Editor} {first second : Text} (h : e.Typed middle first)
    (h' : middle.Typed after second) : e.Typed after (first ++ second) := by
  refine ⟨?_, ?_, h'.heard.trans h.heard⟩
  · rcases h.mode with hsame | hunfocused
    · rw [← hsame]
      exact h'.mode
    · rcases h'.mode with hsame' | hunfocused'
      · exact .inr (hsame'.trans hunfocused)
      · rw [hunfocused, Mode.unfocused_unfocused] at hunfocused'
        exact .inr hunfocused'
  · rw [h'.desk, h.desk, Desk.typed_append]

/-- The text stands before the cursor, and history and kill ring are as they were. -/
theorem Typed.line {after : Editor} {text : Text} (h : e.Typed after text) :
    after.desk.buffer.text = e.desk.buffer.before ++ text ++ e.desk.buffer.after ∧
      after.desk.buffer.cursor = e.desk.buffer.cursor + text.length ∧
      after.desk.history = e.desk.history ∧ after.desk.kills = e.desk.kills := by
  obtain ⟨saved, hdesk⟩ := e.desk.typed_eq text
  rw [h.desk, hdesk]
  exact ⟨rfl, rfl, rfl, rfl⟩

/-- The mode is as it was, unless an action that had let go of the focus was still there. -/
theorem Typed.mode_eq_or {after : Editor} {text : Text} (h : e.Typed after text) :
    after.mode = e.mode ∨ e.mode.focus? ≠ none ∧ after.mode = e.mode.unfocused := by
  rcases h.mode with hsame | hunfocused
  · exact .inl hsame
  · by_cases hfocus : e.mode.focus? = none
    · rw [Mode.unfocused_of_focus?_eq_none hfocus] at hunfocused
      exact .inl hunfocused
    · exact .inr ⟨hfocus, hunfocused⟩

/-- **A character that is typed goes into the line.** -/
theorem TakesText.handle (h : e.TakesText) {c : Char} (hplain : Unicode.isControl c = false) :
    ∃ after, e.handle (.ofChar c) = (after, .ok (some .proceed)) ∧ after.TakesText ∧
      e.Typed after [c] := by
  have hperform := perform_of_action h.reliable
    (h.mode.parse_plain (Stroke.sequence_ofChar c) hplain)
  have hkeeps := e.keeps_handle (.ofChar c)
  rw [Editor.handle, hperform] at hkeeps ⊢
  have hmode : e.mode.unfocused.takeBack (.insert c) = e.mode.unfocused :=
    Mode.takeBack_insert _ c
  have hafter : (e.mode.unfocused.takeBack (.insert c)).EntersText := by
    rw [hmode]
    exact h.mode.unfocused
  exact ⟨_, rfl, ⟨hafter, rfl, hkeeps.reliable h.reliable⟩, .inr hmode, rfl, rfl⟩

/-- Enter ends the line, and the listener hears of it. -/
theorem TakesText.handle_enter (h : e.TakesText) {stroke : Stroke}
    (hstroke : stroke.sequence = ['\r']) :
    ∃ after, e.handle stroke = (after, .ok (some (.commit e.desk.buffer.text))) ∧
      after.heard = e.heard.map (· ++ [.line e.desk.buffer.text]) := by
  obtain ⟨mode, count, hparse⟩ := h.mode.parse_enter hstroke
  have hperform := perform_of_action h.reliable hparse
  rw [Editor.handle, hperform]
  refine ⟨_, rfl, ?_⟩
  exact heard_conclude (e := (({ e with mode := mode } : Editor).applyAction
    (.plain .acceptLine count)).1) h.reliable (.commit e.desk.buffer.text) none

/-! ## Runs and writes -/

/-- **Plain text goes into the line**, one outcome for each character. -/
theorem TakesText.run (h : e.TakesText) {text : Text} (hpending : e.input.pending = text)
    (hplain : ∀ c ∈ text, Unicode.isControl c = false) :
    ∃ after, Runs e after (.ok (List.replicate text.length .proceed)) ∧ after.TakesText ∧
      e.Typed after text ∧ after.input.pending = [] := by
  induction text generalizing e with
  | nil =>
    exact ⟨e, .idle (KeyInput.next?_of_pending_eq_nil hpending), h, .refl e, hpending⟩
  | cons c rest ih =>
    obtain ⟨hc, hrest⟩ := List.forall_mem_cons.mp hplain
    have hnext := h.mode.next?_plain h.synced hpending hc
    let taken : Editor := { e with input := { e.input with pending := rest } }
    have htaken : taken.TakesText := ⟨h.mode, h.synced, h.reliable⟩
    obtain ⟨middle, hhandle, hmiddle, htyped⟩ := htaken.handle hc
    have hleft := pending_handle taken (.ofChar c)
    rw [hhandle] at hleft
    obtain ⟨after, hruns, hafter, hlater, hnone⟩ := ih hmiddle hleft hrest
    have hfirst : e.Typed middle [c] := ⟨htyped.mode, htyped.desk, htyped.heard⟩
    exact ⟨after, .next hnext hhandle hruns, hafter, hfirst.trans hlater, hnone⟩

theorem TakesText.write (h : e.TakesText) (hpending : e.input.pending = []) {bytes : List UInt8}
    (herror : (e.decoder.decode bytes).error = none)
    (hplain : ∀ c ∈ (e.decoder.decode bytes).text, Unicode.isControl c = false) :
    ∃ after, e.write bytes =
        (after, .ok (List.replicate (e.decoder.decode bytes).text.length .proceed)) ∧
      after.TakesText ∧ e.Typed after (e.decoder.decode bytes).text ∧ after.input.pending = [] ∧
        after.decoder = (e.decoder.decode bytes).decoder := by
  have hreceived : (e.receive (e.decoder.decode bytes).decoder
      (e.decoder.decode bytes).text).input.pending = (e.decoder.decode bytes).text := by
    change e.input.pending ++ (e.decoder.decode bytes).text = _
    rw [hpending, List.nil_append]
  obtain ⟨after, hruns, hafter, htyped, hnone⟩ :=
    TakesText.run (e := e.receive _ _) ⟨h.mode, h.synced, h.reliable⟩ hreceived hplain
  refine ⟨after, ?_, hafter, ⟨htyped.mode, htyped.desk, htyped.heard⟩, hnone, hruns.keeps.decoder⟩
  rw [write_of_decoded herror]
  exact hruns.run_eq

/-- **Plain text goes into the line however it is cut**, inside its characters, too. -/
theorem TakesText.writeAll (h : e.TakesText) (hpending : e.input.pending = [])
    (hrest : e.decoder.AtRest) {chunks : List (List UInt8)} {text : Text}
    (herror : (e.decoder.decode chunks.flatten).error = none)
    (htext : (e.decoder.decode chunks.flatten).text = text)
    (hplain : ∀ c ∈ text, Unicode.isControl c = false) :
    ∃ after, e.writeAll chunks = (after, .ok (List.replicate text.length .proceed)) ∧
      after.TakesText ∧ e.Typed after text ∧ after.input.pending = [] ∧
        after.decoder = (e.decoder.decode chunks.flatten).decoder := by
  induction chunks generalizing e text with
  | nil =>
    rw [List.flatten_nil, Decoder.decode_nil hrest] at htext ⊢
    subst htext
    exact ⟨e, rfl, h, .refl e, hpending, rfl⟩
  | cons bytes chunks ih =>
    rw [List.flatten_cons] at herror htext ⊢
    obtain ⟨hfirst, hsecond, happend⟩ := Decoder.decode_append_eq herror
    rw [happend] at htext ⊢
    subst htext
    obtain ⟨hnow, hlater⟩ := List.forall_mem_append.mp hplain
    obtain ⟨middle, hwrite, hmiddle, htyped, hnone, hdecoder⟩ := h.write hpending hfirst hnow
    have hleft := Decoder.atRest_decode hfirst
    rw [← hdecoder] at hleft hsecond hlater ⊢
    obtain ⟨after, hwrites, hafter, htyped', hnone', hdecoder'⟩ :=
      ih hmiddle hnone hleft hsecond rfl hlater
    refine ⟨after, ?_, hafter, htyped.trans htyped', hnone', hdecoder'⟩
    rw [Editor.writeAll, hwrite]
    dsimp only
    rw [hwrites, List.length_append, ← List.replicate_append_replicate]
    rfl

/-! ## Whole lines -/

/-- An editor into whose line text can be typed: nothing that was written before is pending. -/
structure EntersText (e : Editor) : Prop extends TakesText e where
  pending : e.input.pending = []
  decoder : e.decoder.Clear

/-- Binding sequences in the modal dispatcher is not in the way of typing text. -/
theorem EntersText.addAll {added : List (Text × Command)} {typing : Editor} (h : e.EntersText)
    (hmodal : added ≠ [] → e.mode.editingMode = .vi) (hadded : e.addAll added = .ok typing) :
    typing.EntersText := by
  induction added generalizing e with
  | nil =>
    cases hadded
    exact h
  | cons entry rest ih =>
    have hvi := hmodal (List.cons_ne_nil entry rest)
    rw [Editor.addAll] at hadded
    cases hadd : e.addCommand entry.1 entry.2 with
    | error error =>
      rw [hadd] at hadded
      cases hadded
    | ok extended =>
      rw [hadd] at hadded
      rw [addCommand] at hadd
      obtain ⟨mode, hbound, rfl⟩ := exists_ok_of_map hadd
      obtain ⟨hmode, hstays⟩ := h.mode.addCommand hvi hbound
      have hextended : EntersText { e with mode := mode, input := e.input.setTrie mode.keys } :=
        ⟨⟨hmode, rfl, h.reliable⟩, h.pending, h.decoder⟩
      exact ih hextended (fun _ => hstays) hadded

/-- **Enter commits the line**, and the listener hears of it. -/
theorem EntersText.write_enter (h : e.EntersText) :
    ∃ after, e.write (e.decoder.charset.encode ['\r']) =
        (after, .ok [.commit e.desk.buffer.text]) ∧
      after.heard = e.heard.map (· ++ [.line e.desk.buffer.text]) := by
  have hdecode := h.decoder.decode_encode ['\r']
  have hreturn : e.decoder.charset.substitute '\r' = '\r' := by
    cases e.decoder.charset <;> rfl
  rw [List.map_singleton, hreturn] at hdecode
  have herror : (e.decoder.decode (e.decoder.charset.encode ['\r'])).error = none := by
    rw [hdecode]
  rw [write_of_decoded herror, hdecode]
  dsimp only
  generalize { e.decoder with
    consumed := e.decoder.consumed + (e.decoder.charset.encode ['\r']).length } = decoder
  let received := e.receive decoder ['\r']
  have hreceived : received.TakesText := ⟨h.mode, h.synced, h.reliable⟩
  have hpending : received.input.pending = ['\r'] := by
    change e.input.pending ++ ['\r'] = ['\r']
    rw [h.pending, List.nil_append]
  obtain ⟨stroke, hstroke, hnext⟩ := h.mode.next?_enter hreceived.synced hpending
  let taken : Editor := { received with input := { received.input with pending := [] } }
  have htaken : taken.TakesText := ⟨h.mode, h.synced, h.reliable⟩
  obtain ⟨after, hhandle, hheard⟩ := htaken.handle_enter hstroke
  have hleft := pending_handle taken stroke
  rw [hhandle] at hleft
  have hruns : Runs received after (.ok [.commit e.desk.buffer.text]) :=
    .next hnext hhandle (.idle (KeyInput.next?_of_pending_eq_nil hleft))
  exact ⟨after, hruns.run_eq, hheard⟩

/-- **What is typed is what is committed.**  In an editor that enters text, with the usual bindings
and in the modal dispatcher any sequences that were bound after them, the bytes of a plain text can
be written in any chunks.  Each character has its outcome, the text stands before the cursor, and
nothing else has changed.  Enter then has one outcome, the whole line, and the listener hears of
it.  On a machine that checks its sums, this is so if what is drawn meanwhile is no fault. -/
theorem typed_text_is_committed (h : e.EntersText) {added : List (Text × Command)}
    (hmodal : added ≠ [] → e.mode.editingMode = .vi) {typing : Editor}
    (hadded : e.addAll added = .ok typing) {text : Text}
    (hplain : ∀ c ∈ text, Unicode.isControl c = false ∧ typing.decoder.charset.represents c = true)
    {chunks : List (List UInt8)} (hchunks : chunks.flatten = typing.decoder.charset.encode text) :
    let line := typing.desk.buffer.before ++ text ++ typing.desk.buffer.after
    ∃ after committed,
      typing.writeAll chunks = (after, .ok (List.replicate text.length .proceed)) ∧
        after.desk.buffer.text = line ∧
        after.desk.buffer.cursor = typing.desk.buffer.cursor + text.length ∧
        after.desk.history = typing.desk.history ∧ after.desk.kills = typing.desk.kills ∧
        (after.mode = typing.mode ∨
          typing.mode.focus? ≠ none ∧ after.mode = typing.mode.unfocused) ∧
        after.heard = typing.heard ∧
      after.write (typing.decoder.charset.encode ['\r']) = (committed, .ok [.commit line]) ∧
        committed.heard = typing.heard.map (· ++ [.line line]) := by
  intro line
  have htyping := h.addAll hmodal hadded
  have hdecode := htyping.decoder.decode_encode text
  rw [Charset.map_substitute _ fun c hc => (hplain c hc).2, ← hchunks] at hdecode
  have herror : (typing.decoder.decode chunks.flatten).error = none := by rw [hdecode]
  have htext : (typing.decoder.decode chunks.flatten).text = text := by rw [hdecode]
  obtain ⟨after, hwrites, hafter, htyped, hnone, hdecoder⟩ :=
    htyping.writeAll htyping.pending htyping.decoder.atRest herror htext
      fun c hc => (hplain c hc).1
  rw [hdecode] at hdecoder
  have hclear : after.decoder.Clear := by
    rw [hdecoder]
    exact ⟨htyping.decoder.works, htyping.decoder.pending⟩
  obtain ⟨committed, henter, hheard⟩ := EntersText.write_enter ⟨hafter, hnone, hclear⟩
  have hcharset : after.decoder.charset = typing.decoder.charset := by rw [hdecoder]
  obtain ⟨hline, hcursor, hhistory, hkills⟩ := htyped.line
  rw [hcharset, hline] at henter
  rw [hline, htyped.heard] at hheard
  exact ⟨after, committed, hwrites, hline, hcursor, hhistory, hkills, htyped.mode_eq_or,
    htyped.heard, henter, hheard⟩

/-- Command keys of another status are typed into the middle of a line, with a chunk that ends
inside a character, among bindings that were added. -/
theorem typed_text_is_committed_among_added :
    let e : Editor := { new { Config.default with editingMode := .vi } (.reliable .utf8) with
      desk := ⟨⟨['a', 'z'], 1, [], false⟩, .empty 10, .empty 10⟩, heard := some [] }
    let added : List (Text × Command) := [(['z', 'z'], .killLine), (['g', 'd'], .endOfLine)]
    let text : Text := ['d', 'é', '0', 'g', '/']
    let chunks : List (List UInt8) := [[0x64, 0xC3], [0xA9, 0x30], [], [0x67, 0x2F]]
    let line : Text := ['a', 'd', 'é', '0', 'g', '/', 'z']
    e.EntersText ∧ added ≠ [] ∧ e.mode.editingMode = .vi ∧
      (∀ c ∈ text, Unicode.isControl c = false ∧ Charset.utf8.represents c = true) ∧
      chunks.flatten = Charset.utf8.encode text ∧
      ∃ typing after committed : Editor, e.addAll added = .ok typing ∧
        typing.writeAll chunks = (after, .ok (List.replicate 5 .proceed)) ∧
        after.desk.buffer.text = line ∧ after.desk.buffer.cursor = 6 ∧
        after.mode = typing.mode ∧
        after.write [0x0D] = (committed, .ok [.commit line]) ∧
        committed.heard = some [.line line] := by
  intro e added text chunks line
  have husual : e.mode.Usual := ⟨.vi, rfl⟩
  have henters : e.EntersText :=
    ⟨⟨⟨husual.extended, rfl, rfl⟩, rfl, fun _ => rfl⟩, rfl, Decoder.clear_start .utf8⟩
  have hplain : ∀ c ∈ text, Unicode.isControl c = false ∧ Charset.utf8.represents c = true := by
    have hall : text.all fun c => !Unicode.isControl c && Charset.utf8.represents c := by
      decide +kernel
    simpa using hall
  have hchunks : chunks.flatten = Charset.utf8.encode text := by decide +kernel
  have hbound : (e.addAll added).toOption.map (fun typing => (typing.desk, typing.heard,
      typing.decoder.charset, typing.mode.focus?)) = some (e.desk, some [], .utf8, none) := by
    decide +kernel
  obtain ⟨typing, hadded, hstate⟩ := Option.map_eq_some_iff.mp hbound
  cases hresult : e.addAll added with
  | error error =>
    rw [hresult] at hadded
    cases hadded
  | ok result =>
    rw [hresult] at hadded
    cases hadded
    simp only [Prod.mk.injEq] at hstate
    obtain ⟨hdesk, hheard, hcharset, hfocus⟩ := hstate
    obtain ⟨after, committed, hwrites, hline, hcursor, -, -, hmode, -, hcommit, hlast⟩ :=
      typed_text_is_committed henters (fun _ => rfl) hresult (hcharset ▸ hplain)
        (hcharset ▸ hchunks)
    rw [hdesk] at hline hcursor hcommit hlast
    rw [hcharset] at hcommit
    rw [hheard] at hlast
    exact ⟨henters, List.cons_ne_nil _ _, rfl, hplain, hchunks, typing, after, committed, rfl,
      hwrites, hline, hcursor, hmode.resolve_right fun hstale => hstale.1 hfocus, hcommit, hlast⟩

end Editor

end PromptLine
