import PromptLine.Proofs.Editor.Steps
import PromptLine.Proofs.Key.MoreInput

/-!
# Runs of an editor

A run deals with keystroke after keystroke, until none is ready or one fails.  `Runs` says so
without the fuel that the recursion needs: `run` is a run in this sense, and an editor has only one.
What holds of every keystroke is carried over to runs by induction on `Runs`.

The last part is about a run that more input follows.  As long as the input at hand is settled, the
run over all of the input begins with the run over the input at hand.
-/

namespace PromptLine

namespace Editor

/-- A run from the first editor to the second, and what it answers. -/
inductive Runs : Editor → Editor → Except EditorError (List Outcome) → Prop
  /-- No keystroke is ready. -/
  | idle {e : Editor} (waits : e.input.next? = none) : Runs e e (.ok [])
  /-- A keystroke fails, and ends the run. -/
  | failed {e after : Editor} {stroke : Stroke} {input : KeyInput} {error : EditorError}
      (ready : e.input.next? = some (stroke, input))
      (fails : handle { e with input := input } stroke = (after, .error error)) :
      Runs e after (.error error)
  /-- A keystroke is dealt with, and the run goes on. -/
  | next {e middle after : Editor} {stroke : Stroke} {input : KeyInput} {outcome? : Option Outcome}
      {result : Except EditorError (List Outcome)}
      (ready : e.input.next? = some (stroke, input))
      (handled : handle { e with input := input } stroke = (middle, .ok outcome?))
      (rest : Runs middle after result) :
      Runs e after (result.map (outcome?.toList ++ ·))

/-! ## The run of an editor -/

/-- Dealing with a keystroke takes nothing from the input that is left. -/
theorem pending_handle (e : Editor) (stroke : Stroke) :
    (e.handle stroke).1.input.pending = e.input.pending := by
  rw [handle_eq]
  rfl

theorem runs_runWithin {fuel : Nat} {e : Editor} (h : e.input.pending.length ≤ fuel) :
    Runs e (runWithin fuel e).1 (runWithin fuel e).2 := by
  induction fuel generalizing e with
  | zero =>
    have hnone : e.input.next? = none := by
      cases hnext : e.input.next? with
      | none => rfl
      | some taken =>
        have hshorter := KeyInput.length_pending_lt_of_next? hnext
        omega
    exact .idle hnone
  | succ fuel ih =>
    rw [runWithin]
    cases hnext : e.input.next? with
    | none => exact .idle hnext
    | some taken =>
      obtain ⟨stroke, input⟩ := taken
      have hshorter := KeyInput.length_pending_lt_of_next? hnext
      have hpending := pending_handle { e with input := input } stroke
      dsimp only
      rcases hhandle : handle { e with input := input } stroke with ⟨middle, error | outcome?⟩
      · exact .failed hnext hhandle
      · rw [hhandle] at hpending
        have hfuel : middle.input.pending.length ≤ fuel := by
          rw [hpending]
          exact Nat.le_of_lt_succ (Nat.lt_of_lt_of_le hshorter h)
        exact .next hnext hhandle (ih hfuel)

/-- **An editor's run is a run.** -/
theorem runs_run (e : Editor) : Runs e e.run.1 e.run.2 := runs_runWithin (Nat.le_refl _)

/-- An editor has only one run. -/
theorem Runs.unique {e a b : Editor} {resultA resultB : Except EditorError (List Outcome)}
    (ha : Runs e a resultA) (hb : Runs e b resultB) : a = b ∧ resultA = resultB := by
  induction ha generalizing b resultB with
  | idle waits =>
    cases hb with
    | idle => exact ⟨rfl, rfl⟩
    | failed ready => rw [waits] at ready; cases ready
    | next ready => rw [waits] at ready; cases ready
  | failed ready fails =>
    cases hb with
    | idle waits => rw [waits] at ready; cases ready
    | failed ready' fails' =>
      cases ready.symm.trans ready'
      cases fails.symm.trans fails'
      exact ⟨rfl, rfl⟩
    | next ready' handled =>
      cases ready.symm.trans ready'
      cases fails.symm.trans handled
  | next ready handled _ ih =>
    cases hb with
    | idle waits => rw [waits] at ready; cases ready
    | failed ready' fails =>
      cases ready.symm.trans ready'
      cases handled.symm.trans fails
    | next ready' handled' rest' =>
      cases ready.symm.trans ready'
      cases handled.symm.trans handled'
      obtain ⟨rfl, rfl⟩ := ih rest'
      exact ⟨rfl, rfl⟩

theorem Runs.run_eq {e after : Editor} {result : Except EditorError (List Outcome)}
    (h : Runs e after result) : e.run = (after, result) := by
  obtain ⟨hafter, hresult⟩ := (runs_run e).unique h
  exact Prod.ext hafter hresult

/-! ## What holds along a run -/

section Along

variable {e after : Editor} {result : Except EditorError (List Outcome)}

/-- What every keystroke preserves is preserved by a run. -/
theorem Runs.preserves {P : Editor → Prop} (h : Runs e after result)
    (hstep : ∀ (e : Editor) (stroke : Stroke) (input : KeyInput),
      P e → e.input.next? = some (stroke, input) → P (handle { e with input := input } stroke).1)
    (he : P e) : P after := by
  induction h with
  | idle => exact he
  | failed ready fails =>
    have hafter := hstep _ _ _ he ready
    rwa [fails] at hafter
  | next ready handled _ ih =>
    have hmiddle := hstep _ _ _ he ready
    rw [handled] at hmiddle
    exact ih hmiddle

theorem Runs.keeps (h : Runs e after result) : e.Keeps after := by
  refine h.preserves ?_ (Keeps.refl e)
  intro middle stroke input hmiddle _
  have htaken : middle.Keeps { middle with input := input } :=
    ⟨rfl, rfl, rfl, rfl, rfl, rfl, rfl⟩
  exact (hmiddle.trans htaken).trans (keeps_handle _ stroke)

/-- The trie that cuts input is the one that the mode asks for. -/
def Synced (e : Editor) : Prop := e.input.trie = e.mode.keys

/-- After a keystroke it is, whatever was the case before. -/
theorem synced_handle (e : Editor) (stroke : Stroke) : (e.handle stroke).1.Synced := rfl

theorem Runs.synced (h : Runs e after result) (he : e.Synced) : after.Synced := by
  refine h.preserves ?_ he
  intro middle stroke input _ _
  exact synced_handle { middle with input := input } stroke

/-- A run that does not fail goes on as long as a keystroke is ready. -/
theorem Runs.waits (h : Runs e after result) {outcomes : List Outcome}
    (hok : result = .ok outcomes) : after.input.next? = none := by
  induction h generalizing outcomes with
  | idle waits => exact waits
  | failed => cases hok
  | @next _ _ _ _ _ _ result _ _ _ ih =>
    cases result with
    | error error => cases hok
    | ok rest => exact ih rfl

/-- **A run fails only where the sink does.** -/
theorem Runs.ok_of_reliable (h : Runs e after result) (he : e.sink.Reliable) :
    ∃ outcomes, result = .ok outcomes := by
  induction h with
  | idle => exact ⟨[], rfl⟩
  | @failed e _ stroke input _ _ fails =>
    have hok := handle_of_reliable (show ({ e with input := input } : Editor).sink.Reliable from he)
      stroke
    rw [fails] at hok
    obtain ⟨outcome?, houtcome⟩ := hok
    cases houtcome
  | @next e middle _ stroke input outcome? _ _ handled _ ih =>
    have hkeeps := keeps_handle { e with input := input } stroke
    rw [handled] at hkeeps
    obtain ⟨outcomes, rfl⟩ := ih (hkeeps.reliable he)
    exact ⟨outcome?.toList ++ outcomes, rfl⟩

end Along

/-! ## Runs and the input that comes after them -/

/-- The editor when text arrives, with the decoder that it comes from. -/
def receive (e : Editor) (decoder : Decoder) (text : Text) : Editor :=
  e.withSource decoder (e.input.feed text)

/-- Text can arrive in two parts. -/
theorem receive_receive (e : Editor) (first second : Decoder) (xs ys : Text) :
    (e.receive first xs).receive second ys = e.receive second (xs ++ ys) := by
  simp [receive, withSource, KeyInput.feed]

/-- Text may arrive before a keystroke is dealt with, or after that. -/
theorem handle_receive (e : Editor) (decoder : Decoder) (text : Text) (stroke : Stroke) :
    (e.receive decoder text).handle stroke =
      ((e.handle stroke).1.receive decoder text, (e.handle stroke).2) := by
  rw [receive, handle_withSource, handle_eq]
  rfl

/-- An editor whose input can be followed by more: its trie is the one that the mode asks for and
holds what is bound, and no rest of the input is ambiguous. -/
structure Settled (e : Editor) : Prop where
  synced : e.Synced
  frozen : e.mode.Frozen
  input : Trie.Settled e.mode.strokes e.input.pending

section More

variable {e : Editor} {stroke : Stroke} {input : KeyInput}

/-- The next keystroke is the same with more input behind it. -/
theorem Settled.next?_receive (h : e.Settled) (ready : e.input.next? = some (stroke, input))
    (decoder : Decoder) (ys : Text) :
    (e.receive decoder ys).input.next? = some (stroke, input.feed ys) := by
  have htrie : e.input.trie = .ofList e.mode.active := by
    rw [← Mode.keys_eq_ofList h.frozen]
    exact h.synced
  exact KeyInput.next?_feed htrie
    (h.input.of_subset fun _ => Mode.mem_strokes_of_mem_active) ready ys

/-- An editor stays settled when it deals with a keystroke. -/
theorem Settled.handle (h : e.Settled) (ready : e.input.next? = some (stroke, input)) :
    (handle { e with input := input } stroke).1.Settled := by
  have hkeeps := keeps_handle { e with input := input } stroke
  refine ⟨synced_handle _ stroke, hkeeps.frozen h.frozen, ?_⟩
  rw [hkeeps.strokes, pending_handle]
  exact h.input.of_suffix (KeyInput.pending_suffix_of_next? ready)

/-- Answers that are put in front one after another are put in front together. -/
theorem map_append_map_append (result : Except EditorError (List Outcome))
    (first second : List Outcome) :
    (result.map (second ++ ·)).map (first ++ ·) = result.map (first ++ second ++ ·) := by
  cases result with
  | error error => rfl
  | ok rest => exact congrArg Except.ok (List.append_assoc first second rest).symm

/-- **A run that more input follows.**  In a settled editor, a run over the input at hand and the
run that goes on with `ys` are one run over both. -/
theorem Runs.receive {middle after : Editor} {result second : Except EditorError (List Outcome)}
    (h : Runs e middle result) {first : List Outcome} (hok : result = .ok first)
    (hsettled : e.Settled) (decoder : Decoder) (ys : Text)
    (hrest : Runs (middle.receive decoder ys) after second) :
    Runs (e.receive decoder ys) after (second.map (first ++ ·)) := by
  induction h generalizing first with
  | idle =>
    cases hok
    cases second <;> exact hrest
  | failed => cases hok
  | @next e middle _ stroke input outcome? result ready handled _ ih =>
    cases result with
    | error error => cases hok
    | ok rest =>
      cases hok
      have hhandled : Editor.handle { e.receive decoder ys with input := input.feed ys } stroke =
          (middle.receive decoder ys, .ok outcome?) := by
        change (({ e with input := input } : Editor).receive decoder ys).handle stroke = _
        rw [handle_receive, handled]
      have hmiddle := hsettled.handle ready
      rw [handled] at hmiddle
      rw [← map_append_map_append]
      exact .next (hsettled.next?_receive ready decoder ys) hhandled (ih rfl hmiddle hrest)

/-- The run of a settled editor is the beginning of every longer one. -/
theorem run_receive {first : List Outcome} (hsettled : e.Settled) (hok : e.run.2 = .ok first)
    (decoder : Decoder) (ys : Text) :
    (e.receive decoder ys).run =
      ((e.run.1.receive decoder ys).run.1,
        (e.run.1.receive decoder ys).run.2.map (first ++ ·)) :=
  ((runs_run e).receive hok hsettled decoder ys (runs_run _)).run_eq

end More

end Editor

end PromptLine
