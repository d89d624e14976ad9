import PromptLine.Proofs.Charset.RoundTrip
import PromptLine.Proofs.Editor.ChunkBoundaries
import PromptLine.Proofs.Mode.Chords

/-!
# Chords in one write or in two

Between two writes a stream can be cut anywhere without a difference, but for one place: behind an
escape that other code points could follow.  For the plain dispatcher even this place is harmless if
a single code point follows.  Written at once, an escape and a code point are cut as one key if the
chord is bound, and as two keys if it is not; written one after the other, they are always cut as
two.  The dispatcher makes the same of them, so the editor does.

Nothing has to be assumed about the sink.  An escape shows nothing, so whatever the code point shows
is shown by the same editor in both cases, and fails in both or in none.
-/

namespace PromptLine

namespace Editor

/-- The states of an editor that has the usual plain keys and chords that were added.  It can be set
up in any way, and anything can be written to it. -/
inductive Chording : Editor → Prop
  | new {config : Config} (plain : config.editingMode = .emacs) (sink : Sink) :
      Chording (new config sink)
  | plain {e : Editor} (usual : e.report = .ansi) : Chording (e.setEditingMode .emacs)
  | charset {e : Editor} (charset : Charset) (before : Chording e) :
      Chording (e.withCharset charset)
  | listener {e : Editor} (before : Chording e) : Chording e.withListener
  | prompt {e : Editor} (prompt : Text) (before : Chording e) : Chording { e with prompt := prompt }
  | desk {e : Editor} (desk : Desk) (before : Chording e) : Chording { e with desk := desk }
  | write {e : Editor} (bytes : List UInt8) (before : Chording e) : Chording (e.write bytes).1
  | chord {e after : Editor} {c : Char} {command : Command} (plain : command ≠ .metaPrefix)
      (added : e.addCommand [escape, c] command = .ok after) (before : Chording e) : Chording after

/-- The editor has the plain dispatcher, with a table of chords, and cuts input by it. -/
structure HasChords (e : Editor) : Prop where
  mode : ∃ m : Emacs, e.mode = .emacs m ∧ Emacs.Chorded m.table
  synced : e.Synced

/-- A mode with the bindings of a plain dispatcher is one. -/
theorem exists_emacs_of_pristine {mode : Mode} {m : Emacs}
    (h : mode.pristine = (Mode.emacs m).pristine) :
    ∃ after : Emacs, mode = .emacs after ∧ after.table = m.table := by
  cases mode with
  | emacs after => exact ⟨after, rfl, Mode.table_of_pristine_emacs h⟩
  | vi after => cases h

theorem Chording.hasChords {e : Editor} (h : e.Chording) : e.HasChords := by
  induction h with
  | @new config plain sink =>
    refine ⟨⟨.ofTable (.ofBindings Emacs.defaults), ?_, .usual⟩, rfl⟩
    change Mode.start config.editingMode .ansi = _
    rw [plain, Mode.start_emacs_ansi]
  | @plain e usual =>
    refine ⟨⟨.ofTable (.ofBindings Emacs.defaults), ?_, .usual⟩, rfl⟩
    change Mode.start .emacs e.report = _
    rw [usual, Mode.start_emacs_ansi]
  | charset _ _ ih => exact ⟨ih.mode, ih.synced⟩
  | listener _ ih => exact ⟨ih.mode, ih.synced⟩
  | prompt _ _ ih => exact ⟨ih.mode, ih.synced⟩
  | desk _ _ ih => exact ⟨ih.mode, ih.synced⟩
  | @write e bytes _ ih =>
    rcases e.write_cases bytes with ⟨decoder, error, hwrite⟩ | ⟨decoder, text, hwrite⟩
    · rw [hwrite]
      exact ⟨ih.mode, ih.synced⟩
    · obtain ⟨m, hmode, hchorded⟩ := ih.mode
      have hruns := runs_run (e.receive decoder text)
      have hpristine : (e.receive decoder text).run.1.mode.pristine = (Mode.emacs m).pristine :=
        hmode ▸ hruns.keeps.bindings
      obtain ⟨after, hafter, htable⟩ := exists_emacs_of_pristine hpristine
      rw [hwrite]
      exact ⟨⟨after, hafter, htable ▸ hchorded⟩, hruns.synced ih.synced⟩
  | @chord e after c command plain added _ ih =>
    obtain ⟨m, hmode, hchorded⟩ := ih.mode
    rw [addCommand, hmode] at added
    obtain ⟨mode, hadded, rfl⟩ := exists_ok_of_map added
    obtain ⟨extended, hextended, rfl⟩ := exists_ok_of_map hadded
    obtain ⟨table, htable, rfl⟩ := exists_ok_of_map hextended
    exact ⟨⟨_, rfl, .add hchorded plain htable⟩, rfl⟩

/-! ## Runs over a few keys -/

section Runs

variable {e : Editor} {stroke : Stroke} {input : KeyInput}

/-- A run begins with its first key. -/
theorem run_of_next {middle : Editor} {outcome? : Option Outcome}
    (hnext : e.input.next? = some (stroke, input))
    (hhandle : handle { e with input := input } stroke = (middle, .ok outcome?)) :
    e.run = (middle.run.1, middle.run.2.map (outcome?.toList ++ ·)) :=
  (Runs.next hnext hhandle (runs_run middle)).run_eq

/-- A run over the last key. -/
theorem run_of_last (hnext : e.input.next? = some (stroke, input)) (hlast : input.pending = []) :
    e.run = ((handle { e with input := input } stroke).1,
      (handle { e with input := input } stroke).2.map Option.toList) := by
  have hpending := pending_handle { e with input := input } stroke
  rcases hhandle : handle { e with input := input } stroke with ⟨after, error | outcome?⟩
  · exact (Runs.failed hnext hhandle).run_eq
  · rw [hhandle] at hpending
    have hidle : Runs after after (.ok []) :=
      .idle (KeyInput.next?_of_pending_eq_nil (hpending.trans hlast))
    rw [(Runs.next hnext hhandle hidle).run_eq]
    exact congrArg (fun outcomes => (after, Except.ok outcomes)) (List.append_nil _)

/-- Modes that make the same of two keys carry out the same. -/
theorem handle_of_parse_eq {mode other : Mode} {key : Stroke}
    (h : mode.parse stroke = other.parse key) :
    handle { e with mode := mode } stroke = handle { e with mode := other } key := by
  rw [handle, handle, perform, perform]
  dsimp only
  rw [h]

end Runs

/-! ## An escape and a code point -/

section Chord

variable {e : Editor} {m : Emacs}

/-- The editor with the leader armed. -/
def armed (e : Editor) (m : Emacs) : Editor := { e with mode := .emacs m.armed }

variable (hmode : e.mode = .emacs m) (htable : Emacs.Leads m.table) (hsynced : e.Synced)
  (hleader : m.leader = .idle) (hfree : m.focus.any Focus.isHeld = false)

include hmode htable hsynced hleader hfree

/-- An escape arms the leader and does nothing else. -/
theorem handle_escape {stroke : Stroke} (hstroke : stroke.sequence = [escape]) (decoder : Decoder)
    (pending : Text) :
    (e.withSource decoder { e.input with pending := pending }).handle stroke =
      ((e.armed m).withSource decoder { e.input with pending := pending }, .ok none) := by
  have hparse : e.mode.parse stroke = (.emacs m.armed, none) := by
    rw [hmode, Mode.parse, Emacs.parse_escape htable hleader hfree hstroke]
    rfl
  have htrie : (Mode.emacs m.armed).keys = e.input.trie := by
    rw [hsynced, hmode]
    rfl
  rw [handle_withSource, perform, hparse]
  dsimp only
  rw [htrie]
  rfl

variable (hpending : e.input.pending = [])

include hpending

/-- An escape that arrives alone. -/
theorem run_receive_escape (decoder : Decoder) :
    (e.receive decoder [escape]).run = ((e.armed m).withSource decoder e.input, .ok []) := by
  have hinput : { e.input with pending := [] } = e.input := by rw [← hpending]
  have htrie : (e.input.feed [escape]).trie = m.table.trie := by
    change e.input.trie = _
    rw [hsynced, hmode]
    rfl
  have hfed : (e.input.feed [escape]).pending = [escape] := by
    rw [KeyInput.pending_feed, hpending]
    rfl
  obtain ⟨stroke, hstroke, hnext⟩ := htable.next?_escape htrie hfed
  have hhandle := handle_escape hmode htable hsynced hleader hfree hstroke decoder []
  rw [hinput] at hhandle
  rw [run_of_last (e := e.receive decoder [escape]) hnext rfl]
  change (((e.withSource decoder { e.input with pending := [] }).handle stroke).1,
    ((e.withSource decoder { e.input with pending := [] }).handle stroke).2.map _) = _
  rw [hinput, hhandle]
  rfl

/-- **An escape and a code point that arrive together** are dealt with as a code point that arrives
when the leader is armed. -/
theorem run_receive_chord (decoder : Decoder) (c : Char) :
    (e.receive decoder [escape, c]).run = ((e.armed m).receive decoder [c]).run := by
  have hkeys : e.input.trie = m.table.trie := by
    rw [hsynced, hmode]
    rfl
  have hfed : ∀ text, (e.input.feed text).pending = text := by
    intro text
    rw [KeyInput.pending_feed, hpending]
    rfl
  obtain ⟨key, hkey, hlast⟩ := htable.next?_single (k := e.input.feed [c]) hkeys (hfed [c])
  obtain ⟨stroke, ⟨hbound, hstroke, hnext⟩ | ⟨-, hstroke, hnext⟩⟩ :=
    htable.next?_chord (k := e.input.feed [escape, c]) hkeys (hfed [escape, c])
  · -- the chord is one key, and means what the code point means behind the leader
    rw [run_of_last (e := e.receive decoder [escape, c]) hnext rfl,
      run_of_last (e := (e.armed m).receive decoder [c]) hlast rfl]
    have hparse : (Mode.emacs m).parse stroke = (Mode.emacs m.armed).parse key := by
      rw [Mode.parse, Mode.parse, Emacs.parse_chord htable hleader hfree hbound hstroke,
        Emacs.parse_armed hleader hkey]
    have hhandle := handle_of_parse_eq (e := e.withSource decoder { e.input with pending := [] })
      hparse
    rw [← hmode] at hhandle
    exact congrArg (fun handled : Editor × Handled => (handled.1, handled.2.map Option.toList))
      hhandle
  · -- the escape is a key by itself, and leaves the code point
    have hhandle := handle_escape hmode htable hsynced hleader hfree hstroke decoder [c]
    have hmiddle : (e.armed m).withSource decoder { e.input with pending := [c] } =
        (e.armed m).receive decoder [c] := by
      rw [receive, KeyInput.feed]
      change _ = (e.armed m).withSource decoder { e.input with pending := e.input.pending ++ [c] }
      rw [hpending]
      rfl
    rw [hmiddle] at hhandle
    rw [run_of_next (e := e.receive decoder [escape, c]) hnext hhandle]
    rcases ((e.armed m).receive decoder [c]).run with ⟨after, error | outcomes⟩ <;> rfl

end Chord

/-! ## One write or two -/

/-- An escape has bytes of its own in every charset. -/
theorem substitute_escape (charset : Charset) : charset.substitute escape = escape := by
  cases charset <;> rfl

/-- **A chord means the same in one write or in two.**  Let chords be added to the plain keys, and
let nothing be waiting: no leader, no action in focus, and no input.  Whatever is on the line, an
escape and a code point that are written together have the outcomes of an escape and then the code
point, and leave the same editor: the same line and history, the same output, and the same events.
If the sink fails, or the decoder is of no use any more, both fail alike. -/
theorem write_chord {e : Editor} (he : e.Chording) (hawaits : e.mode.AwaitsText)
    (hpending : e.input.pending = []) (hdecoder : e.decoder.pendingBytes = 0) (c : Char) :
    let charset := e.decoder.charset
    let first := e.write (charset.encode [escape])
    let second := first.1.write (charset.encode [c])
    e.write (charset.encode [escape, c]) =
      (second.1, first.2.bind fun outcomes => second.2.map (outcomes ++ ·)) := by
  intro charset first second
  cases hpoisoned : e.decoder.poisoned with
  | true =>
    have hfirst : first = (e, .error (.decode .poisoned)) := write_of_poisoned hpoisoned _
    have hsecond : second = (e, .error (.decode .poisoned)) := by
      change first.1.write _ = _
      rw [hfirst]
      exact write_of_poisoned hpoisoned _
    rw [write_of_poisoned hpoisoned, hsecond, hfirst]
    rfl
  | false =>
    obtain ⟨m, hmode, hchorded⟩ := he.hasChords.mode
    rw [hmode] at hawaits
    obtain ⟨hfree, hleader⟩ := hawaits
    have hleads := hchorded.leads
    have hsynced := he.hasChords.synced
    have hclear : e.decoder.Clear := ⟨hpoisoned, hdecoder⟩
    obtain ⟨middle, last, halone, hbehind, htogether⟩ := hclear.decode_encode_append [escape] [c]
    rw [List.map_singleton, substitute_escape, List.map_singleton] at htogether
    rw [List.map_singleton, substitute_escape] at halone
    rw [List.map_singleton] at hbehind
    have hfirst : first = ((e.armed m).withSource middle e.input, .ok []) := by
      change e.write _ = _
      rw [write_of_decoded (by rw [halone]), halone]
      exact run_receive_escape hmode hleads hsynced hleader hfree hpending middle
    have hsecond : second = ((e.armed m).receive last [charset.substitute c]).run := by
      change first.1.write _ = _
      rw [hfirst]
      change ((e.armed m).withSource middle e.input).write _ = _
      have hdecode : ((e.armed m).withSource middle e.input).decoder.decode (charset.encode [c]) =
          ⟨last, [charset.substitute c], none⟩ := hbehind
      rw [write_of_decoded (by rw [hdecode]), hdecode]
      rfl
    have hwhole : e.write (charset.encode [escape, c]) =
        ((e.armed m).receive last [charset.substitute c]).run := by
      have hdecode : e.decoder.decode (charset.encode [escape, c]) =
          ⟨last, [escape, charset.substitute c], none⟩ := htogether
      rw [write_of_decoded (by rw [hdecode]), hdecode]
      exact run_receive_chord hmode hleads hsynced hleader hfree hpending last _
    rw [hwhole, ← hsecond, hfirst]
    -- the escape has no outcome, so those of the code point are all
    rcases second with ⟨after, error | outcomes⟩ <;> rfl

/-- With a chord on `x` that empties the line, each of three chords does in two writes what it does
in one: the one that was added, a usual one, and `[`, which begins keys but means nothing. -/
theorem write_chord_added :
    let usual := new Config.default (.reliable .utf8)
    let bound := (usual.addCommand [escape, 'x'] .killWholeLine).toOption.getD usual
    let e := (bound.write [0x61, 0x20, 0x62]).1
    let split := fun c => (e.write [0x1B]).1.write [c]
    usual.addCommand [escape, 'x'] .killWholeLine = .ok bound ∧ (e.write [0x1B]).2 = .ok [] ∧
      (e.write [0x1B, 0x78] = split 0x78 ∧ (split 0x78).1.desk.buffer.text = []) ∧
      (e.write [0x1B, 0x62] = split 0x62 ∧ (split 0x62).1.desk.buffer.cursor = 2) ∧
      (e.write [0x1B, 0x5B] = split 0x5B ∧ (split 0x5B).1.desk = e.desk) := by
  intro usual bound e split
  have hbound : usual.addCommand [escape, 'x'] .killWholeLine = .ok bound := by
    have hadded : (usual.addCommand [escape, 'x'] .killWholeLine).toOption.isSome = true := by
      decide +kernel
    change _ = Except.ok ((usual.addCommand [escape, 'x'] .killWholeLine).toOption.getD usual)
    cases hresult : usual.addCommand [escape, 'x'] .killWholeLine with
    | ok after => rfl
    | error error =>
      rw [hresult] at hadded
      cases hadded
  have hchording : e.Chording := .write _ (.chord (by decide) hbound (.new rfl _))
  have hawaits : e.mode.AwaitsText := by decide +kernel
  have hcharset : e.decoder.charset = .utf8 := by decide +kernel
  have hpending : e.input.pending = [] := by decide +kernel
  have hdecoder : e.decoder.pendingBytes = 0 := by decide +kernel
  have hfirst : (e.write [0x1B]).2 = .ok [] := by decide +kernel
  have hescape : Charset.utf8.encode [escape] = [0x1B] := by decide +kernel
  have hchord : ∀ c, e.write (Charset.utf8.encode [escape, c]) =
      (e.write [0x1B]).1.write (Charset.utf8.encode [c]) := by
    intro c
    have hwrite := write_chord hchording hawaits hpending hdecoder c
    dsimp only at hwrite
    rw [hcharset, hescape, hfirst] at hwrite
    rw [hwrite]
    rcases (e.write [0x1B]).1.write (Charset.utf8.encode [c]) with ⟨after, error | outcomes⟩ <;> rfl
  exact ⟨hbound, hfirst, ⟨hchord 'x', by decide +kernel⟩, ⟨hchord 'b', by decide +kernel⟩,
    ⟨hchord '[', by decide +kernel⟩⟩

end Editor

end PromptLine
