import PromptLine.Proofs.Charset.Chunks
import PromptLine.Proofs.Editor.Runs
import PromptLine.Proofs.Mode.UsualBindings

/-!
# Where a stream of input is cut

A transport hands its bytes over in chunks, and cuts where it likes: inside a character, inside a
key sequence, between two keys of one command.  The first is the decoder's business and makes no
difference.  The last makes none, because nothing but state is left between two keystrokes.  What
remains is the cut inside a key sequence, and with the usual bindings only an escape at the end of
the first chunk can be taken for a key of its own that it would not have been.

Between two writes an editor waits: whatever could be taken from its input has been taken.  So the
input that is held over is the beginning of a plain sequence, and holds no escape.
-/

namespace PromptLine

namespace Editor

/-- The states of an editor that has the usual keys and a sink that does not fail.  It can be set up
in any way, and anything can be written to it. -/
inductive Reached : Editor → Prop
  | new (config : Config) {sink : Sink} (reliable : sink.Reliable) : Reached (new config sink)
  | charset {e : Editor} (charset : Charset) (before : Reached e) :
      Reached (e.withCharset charset)
  | listener {e : Editor} (before : Reached e) : Reached e.withListener
  | prompt {e : Editor} (prompt : Text) (before : Reached e) : Reached { e with prompt := prompt }
  | desk {e : Editor} (desk : Desk) (before : Reached e) : Reached { e with desk := desk }
  | write {e : Editor} (bytes : List UInt8) (before : Reached e) : Reached (e.write bytes).1

/-! ## Between two writes -/

theorem write_of_error {e : Editor} {bytes : List UInt8} {error : DecodeError}
    (h : (e.decoder.decode bytes).error = some error) :
    e.write bytes = ({ e with decoder := (e.decoder.decode bytes).decoder },
      .error (.decode error)) := by
  rw [Editor.write]
  dsimp only
  rw [h]

/-- A decoder that found malformed input refuses every write. -/
theorem write_of_poisoned {e : Editor} (h : e.decoder.poisoned = true) (bytes : List UInt8) :
    e.write bytes = (e, .error (.decode .poisoned)) := by
  have hdecode : e.decoder.decode bytes = ⟨e.decoder, [], some .poisoned⟩ := by
    rw [Decoder.decode, h]
    rfl
  rw [write_of_error (by rw [hdecode]), hdecode]

theorem write_of_decoded {e : Editor} {bytes : List UInt8}
    (h : (e.decoder.decode bytes).error = none) :
    e.write bytes =
      (e.receive (e.decoder.decode bytes).decoder (e.decoder.decode bytes).text).run := by
  rw [Editor.write]
  dsimp only
  rw [h]
  rfl

/-- A write that cannot be decoded changes the decoder only, and every other one is a run. -/
theorem write_cases (e : Editor) (bytes : List UInt8) :
    (∃ decoder error, e.write bytes = (e.withSource decoder e.input, .error (.decode error))) ∨
      ∃ decoder text, e.write bytes = (e.receive decoder text).run := by
  cases hdecode : (e.decoder.decode bytes).error with
  | some error => exact .inl ⟨_, error, write_of_error hdecode⟩
  | none => exact .inr ⟨_, _, write_of_decoded hdecode⟩

/-- An editor between two writes: nothing can be taken from its input, which is cut as the mode asks
for, by the usual bindings. -/
structure Waiting (e : Editor) : Prop where
  reliable : e.sink.Reliable
  synced : e.Synced
  usual : e.mode.Usual
  waits : e.input.next? = none

/-- A run that comes to its end leaves an editor that waits. -/
theorem waiting_run {e : Editor} (hreliable : e.sink.Reliable) (hsynced : e.Synced)
    (husual : e.mode.Usual) : e.run.1.Waiting := by
  have hrun := runs_run e
  obtain ⟨outcomes, hok⟩ := hrun.ok_of_reliable hreliable
  obtain ⟨mode, hmode⟩ := husual
  exact ⟨hrun.keeps.reliable hreliable, hrun.synced hsynced,
    ⟨mode, hrun.keeps.bindings.trans hmode⟩, hrun.waits hok⟩

/-- **Between two writes an editor waits.** -/
theorem Reached.waiting {e : Editor} (h : e.Reached) : e.Waiting := by
  induction h with
  | new config reliable =>
    exact ⟨reliable, rfl, ⟨config.editingMode, Mode.pristine_start _ _⟩, rfl⟩
  | charset charset _ ih => exact ⟨ih.reliable, ih.synced, ih.usual, ih.waits⟩
  | listener _ ih => exact ⟨ih.reliable, ih.synced, ih.usual, ih.waits⟩
  | prompt prompt _ ih => exact ⟨ih.reliable, ih.synced, ih.usual, ih.waits⟩
  | desk desk _ ih => exact ⟨ih.reliable, ih.synced, ih.usual, ih.waits⟩
  | @write e bytes _ ih =>
    cases hdecode : (e.decoder.decode bytes).error with
    | some error =>
      rw [write_of_error hdecode]
      exact ⟨ih.reliable, ih.synced, ih.usual, ih.waits⟩
    | none =>
      rw [write_of_decoded hdecode]
      exact waiting_run ih.reliable ih.synced ih.usual

/-- Text that arrives at an editor that waits is settled, if no rest of it that begins with an
escape is the beginning of a bound sequence. -/
theorem Waiting.settled_receive {e : Editor} (h : e.Waiting) (decoder : Decoder) {text : Text}
    (hcut : ∀ rest, rest <:+ text → rest.head? = some escape →
      ¬Trie.Begins e.mode.strokes rest) : (e.receive decoder text).Settled := by
  have hpending := h.usual.escape_notMem_pending h.synced h.waits
  refine ⟨h.synced, h.usual.frozen, h.usual.onlyEscapeNests.settled ?_⟩
  intro rest hrest hhead
  exact hcut rest (Trie.suffix_of_escape_notMem hpending hrest hhead) hhead

/-! ## Two writes or one -/

/-- Writing to a settled editor after its run goes on with that run. -/
theorem run_receive_eq_write {e : Editor} (hsettled : e.Settled) (hreliable : e.sink.Reliable)
    {bytes : List UInt8} (hbytes : (e.decoder.decode bytes).error = none) :
    ∃ first, e.run.2 = .ok first ∧
      (e.receive (e.decoder.decode bytes).decoder (e.decoder.decode bytes).text).run =
        ((e.run.1.write bytes).1, (e.run.1.write bytes).2.map (first ++ ·)) := by
  have hrun := runs_run e
  have hdecoder := hrun.keeps.decoder
  obtain ⟨first, hok⟩ := hrun.ok_of_reliable hreliable
  refine ⟨first, hok, ?_⟩
  rw [← hdecoder] at hbytes
  rw [write_of_decoded hbytes, hdecoder]
  exact run_receive hsettled hok _ _

/-- **Where a stream is cut matters only inside an escape sequence.**  If the first part of a write
does not end in the beginning of a bound sequence that an escape begins, then two writes have the
outcomes of one write and leave the same editor, with the same output and the same events. -/
theorem write_append {e whole : Editor} (he : e.Reached) {a b : List UInt8}
    {outcomes : List Outcome} (hwrite : e.write (a ++ b) = (whole, .ok outcomes))
    (hcut : ∀ rest, rest <:+ (e.decoder.decode a).text → rest.head? = some escape →
      ¬Trie.Begins e.mode.strokes rest) :
    ∃ (middle : Editor) (first second : List Outcome), e.write a = (middle, .ok first) ∧
      middle.write b = (whole, .ok second) ∧ outcomes = first ++ second := by
  have hwhole : (e.decoder.decode (a ++ b)).error = none := by
    cases hdecode : (e.decoder.decode (a ++ b)).error with
    | none => rfl
    | some error => rw [write_of_error hdecode] at hwrite; cases hwrite
  obtain ⟨ha, hb, happend⟩ := Decoder.decode_append_eq hwhole
  have hsettled := he.waiting.settled_receive (e.decoder.decode a).decoder hcut
  obtain ⟨first, hfirst, hmore⟩ := run_receive_eq_write hsettled he.waiting.reliable hb
  rw [← write_of_decoded ha] at hfirst hmore
  -- the text of both parts arrives at once, or the second part behind the first
  have hparts : e.write (a ++ b) =
      (((e.write a).1.write b).1, ((e.write a).1.write b).2.map (first ++ ·)) := by
    rw [write_of_decoded hwhole, happend, ← receive_receive e (e.decoder.decode a).decoder]
    exact hmore
  rw [hparts, Prod.mk.injEq] at hwrite
  obtain ⟨rfl, houtcomes⟩ := hwrite
  cases hsecond : ((e.write a).1.write b).2 with
  | error error => rw [hsecond] at houtcomes; cases houtcomes
  | ok second =>
    rw [hsecond] at houtcomes
    cases houtcomes
    exact ⟨(e.write a).1, first, second, Prod.ext rfl hfirst, Prod.ext rfl hsecond, rfl⟩

/-- A cut inside an operator of two keys: in command status a `g` waits, and `U$` behind it is the
rest of the operator and its motion. -/
theorem write_append_operator :
    let e := ((new { Config.default with editingMode := .vi } (.reliable .utf8)).write
      [0x61, 0x62, 0x1B, 0x30]).1
    ∃ (middle : Editor) (first second : List Outcome), e.write [0x67] = (middle, .ok first) ∧
      middle.write [0x55, 0x24] = ((e.write [0x67, 0x55, 0x24]).1, .ok second) ∧
        [.proceed, .proceed] = first ++ second := by
  intro e
  have he : e.Reached := .write _ (.new _ fun _ => rfl)
  have hwrite : (e.write ([0x67] ++ [0x55, 0x24])).2 = .ok [.proceed, .proceed] := by
    decide +kernel
  have htext : (e.decoder.decode [0x67]).text = ['g'] := by decide +kernel
  refine write_append he (Prod.ext rfl hwrite) ?_
  intro rest hrest hhead
  have hescape : escape ∈ ['g'] := htext ▸ hrest.subset (List.mem_of_mem_head? hhead)
  exact absurd hescape (by decide)

end Editor

end PromptLine
