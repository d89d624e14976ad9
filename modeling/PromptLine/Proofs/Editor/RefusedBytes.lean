import PromptLine.Proofs.Editor.Calls

/-!
# Bytes that are refused

A write can fail in two ways.  The screen can fail under one of its keystrokes, and then all that
was done before stays done.  Or its bytes cannot be decoded, and then nothing was done at all: a
write decodes all of its bytes before it deals with the first keystroke, so not even the keys in
front of the malformed byte have come to anything.

The two do not mix.  A keystroke fails with the reason of the sink and with nothing else, so an
error of the decoder is always the second kind, and the decoder is all that it changes.  It is of no
use from then on, and refuses whatever is written until it is exchanged for another one.
-/

namespace PromptLine

/-- A chunk that is refused leaves a decoder that refuses everything. -/
theorem Decoder.poisoned_of_error {d : Decoder} {bytes : List UInt8} {error : DecodeError}
    (h : (d.decode bytes).error = some error) : (d.decode bytes).decoder.poisoned = true := by
  unfold decode at h ⊢
  dsimp only at h ⊢
  split_ifs at h ⊢ with hpoisoned
  · exact hpoisoned
  · rfl

namespace Editor

variable {e : Editor}

/-! ## Errors of the screen -/

theorem exists_io_of_finishLine {event : Event} {error : EditorError}
    (h : (e.finishLine event).2 = some error) : ∃ reason, error = .io reason := by
  have hdrawn : ∀ error, (e.freshLine.present [.newLine]).2 = some error →
      ∃ reason, error = .io reason := by
    intro error hfails
    obtain ⟨reason, -, rfl⟩ := Option.map_eq_some_iff.mp hfails
    exact ⟨reason, rfl⟩
  rw [finishLine] at h
  generalize e.freshLine.present [.newLine] = drawn at h hdrawn
  rcases drawn with ⟨after, _ | found⟩
  · cases h
  · cases h
    exact hdrawn _ rfl

theorem exists_io_of_conclude {outcome : Outcome} {banner : Option Banner} {error : EditorError}
    (h : (e.conclude outcome banner).2 = some error) : ∃ reason, error = .io reason := by
  have hpresent : ∀ requests, (e.present requests).2 = some error →
      ∃ reason, error = .io reason := by
    intro requests hfails
    obtain ⟨reason, -, rfl⟩ := Option.map_eq_some_iff.mp hfails
    exact ⟨reason, rfl⟩
  cases outcome with
  | commit line => exact exists_io_of_finishLine h
  | eof => exact exists_io_of_finishLine h
  | interrupted => exact exists_io_of_finishLine h
  | proceed => exact hpresent _ h
  | complete => exact hpresent _ h
  | bell style => exact hpresent _ h
  | clearScreen => exact hpresent _ h

/-- **A keystroke fails with the reason of the sink**, and in no other way. -/
theorem exists_io_of_handle {stroke : Stroke} {error : EditorError}
    (h : (e.handle stroke).2 = .error error) : ∃ reason, error = .io reason := by
  change (e.perform stroke).2 = .error error at h
  rw [perform] at h
  generalize e.mode.parse stroke = parsed at h
  rcases parsed with ⟨mode, _ | action⟩
  · cases h
  · dsimp only at h
    rw [carryOut] at h
    generalize ({ e with mode := mode } : Editor).applyAction action = applied at h
    rcases applied with ⟨applied, outcome, banner⟩
    dsimp only at h
    have hconclude := @exists_io_of_conclude applied outcome banner
    generalize applied.conclude outcome banner = concluded at h hconclude
    rcases concluded with ⟨after, _ | found⟩
    · cases h
    · cases h
      exact hconclude rfl

theorem Runs.exists_io {after : Editor} {result : Except EditorError (List Outcome)}
    (h : Runs e after result) {error : EditorError} (herror : result = .error error) :
    ∃ reason, error = .io reason := by
  induction h with
  | idle => cases herror
  | failed ready fails =>
    cases herror
    exact exists_io_of_handle (congrArg Prod.snd fails)
  | @next _ _ _ _ _ _ result _ _ _ ih =>
    cases result with
    | error found =>
      cases herror
      exact ih rfl
    | ok rest => cases herror

/-! ## Errors of the decoder -/

/-- A write answers with an error of the decoder exactly if the decoder refuses its bytes. -/
theorem snd_write_eq_decode_iff {bytes : List UInt8} {error : DecodeError} :
    (e.write bytes).2 = .error (.decode error) ↔ (e.decoder.decode bytes).error = some error := by
  cases hdecode : (e.decoder.decode bytes).error with
  | some found =>
    rw [write_of_error hdecode]
    simp
  | none =>
    rw [write_of_decoded hdecode]
    refine iff_of_false (fun hrun => ?_) (Option.some_ne_none error).symm
    obtain ⟨reason, hreason⟩ := (runs_run _).exists_io hrun
    cases hreason

/-- A call that does not exchange the decoder does not make it work again. -/
theorem poisoned_serve (h : e.decoder.poisoned = true) {call : Call}
    (hcall : ∀ charset, call ≠ .setCharset charset) :
    (e.serve call).1.decoder.poisoned = true := by
  cases call with
  | write bytes =>
    show (e.write bytes).1.decoder.poisoned = true
    rw [write_of_poisoned h]
    exact h
  | bind sequence command =>
    show ((e.addCommand sequence command).toOption.getD e).decoder.poisoned = true
    rw [addCommand]
    cases e.mode.addCommand sequence command <;> exact h
  | setEditingMode mode => exact h
  | setDevice report => exact h
  | setCharset charset => exact absurd rfl (hcall charset)

theorem poisoned_serveAll (h : e.decoder.poisoned = true) {calls : List Call}
    (hcalls : ∀ charset, .setCharset charset ∉ calls) :
    (e.serveAll calls).1.decoder.poisoned = true := by
  induction calls generalizing e with
  | nil => exact h
  | cons call rest ih =>
    have hfirst : (e.serve call).1.decoder.poisoned = true :=
      poisoned_serve h fun charset heq => hcalls charset (heq ▸ List.mem_cons_self)
    exact ih hfirst fun charset hmem => hcalls charset (List.mem_cons_of_mem call hmem)

/-- **Bytes that cannot be decoded are refused as a whole.**  A write that answers with an error of
the decoder has changed nothing but the decoder: the line with its cursor and its saved states, the
kill ring, the history, the mode, the input that waits, the screen and the events that were heard
are as they were.  Whatever is asked of the editor then, short of another charset, every later write
is refused and changes nothing at all. -/
theorem write_refused {bytes : List UInt8} {error : DecodeError}
    (h : (e.write bytes).2 = .error (.decode error)) :
    let refused := (e.write bytes).1
    (∃ decoder, refused = { e with decoder := decoder }) ∧
      ∀ calls : List Call, (∀ charset, .setCharset charset ∉ calls) →
        let now := (refused.serveAll calls).1
        ∀ later, now.write later = (now, .error (.decode .poisoned)) := by
  intro refused
  have hdecode := snd_write_eq_decode_iff.mp h
  have hrefused : refused = { e with decoder := (e.decoder.decode bytes).decoder } :=
    congrArg Prod.fst (write_of_error hdecode)
  refine ⟨⟨_, hrefused⟩, ?_⟩
  intro calls hcalls now later
  have hpoisoned : refused.decoder.poisoned = true := by
    rw [hrefused]
    exact Decoder.poisoned_of_error hdecode
  exact write_of_poisoned (poisoned_serveAll hpoisoned hcalls) later

/-- The rest of an operator, a motion, a commit, and a byte that begins no character, all in one
write: not even the operator is carried out.  Its first key still waits. -/
theorem write_refused_after_commit :
    let e := ((new { Config.default with editingMode := .vi } (.reliable .utf8)).withListener.write
      [0x61, 0x62, 0x1B, 0x30, 0x67]).1
    let bytes : List UInt8 := [0x55, 0x24, 0x0D, 0xFF]
    let refused := (e.write bytes).1
    (e.write bytes).2 = .error (.decode (.malformed .utf8 8)) ∧
      refused.desk.buffer.text = ['a', 'b'] ∧ refused.input.pending = ['g'] ∧
        refused.heard = some [] ∧
          ∀ later, refused.write later = (refused, .error (.decode .poisoned)) := by
  intro e bytes refused
  have herror : (e.write bytes).2 = .error (.decode (.malformed .utf8 8)) := by decide +kernel
  have hbefore : e.desk.buffer.text = ['a', 'b'] ∧ e.input.pending = ['g'] ∧ e.heard = some [] := by
    decide +kernel
  obtain ⟨⟨decoder, hrefused⟩, hlater⟩ := write_refused herror
  refine ⟨herror, ?_, ?_, ?_, hlater [] fun _ => List.not_mem_nil⟩
  · exact (congrArg (·.desk.buffer.text) hrefused).trans hbefore.1
  · exact (congrArg (·.input.pending) hrefused).trans hbefore.2.1
  · exact (congrArg (·.heard) hrefused).trans hbefore.2.2

end Editor

end PromptLine
