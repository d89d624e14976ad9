import PromptLine.Proofs.Editor.Calls
import PromptLine.Proofs.Key.Conservation
import PromptLine.Proofs.Key.FiniteMap
import PromptLine.Proofs.Mode.BoundSequences

/-!
# The table that input is cut by

An editor's input is cut by a trie of its own, which should be the one that the mode asks for.  What
the mode asks for can change in several ways: a key leads to another status, a line ends, a sequence
is bound and the tries of the table are made anew, or the whole mode is.  Each time the input has to
be given its trie again.  After a key this is done only if the two tries are not one and the same,
which is told by where they are in memory and not by what they hold.

A `Placed` editor is one together with where its tries are, and it goes by their addresses.  It
changes what it holds step by step, so that a step that is refused could leave traces of the steps
before.  It leaves none, and addresses do not mislead it: it stays in step with the editor that
takes the trie of its mode after every key (`Placed.InTune.lifetime`).

`lifetime` lists its states while it meets one `Demand` after another: when bytes have arrived,
after each key, whether the screen failed or not, and after each demand.  In all of them input is
cut by the active sequences of the mode, and to bind one more goes through or leaves no trace
(`cuts_by_active`).
-/

namespace PromptLine

namespace Editor

/-! ## Tries and where they are -/

/-- A trie in memory. -/
structure Shared where
  address : Nat
  trie : Trie

/-- The tries of a mode, and the one that the input has. -/
structure Tries where
  /-- From here on memory is free. -/
  free : Nat
  full : Shared
  narrow : Shared
  input : Shared

namespace Tries

/-- The trie that a mode asks for. -/
def asked (t : Tries) (m : Mode) : Shared := if m.isNarrow then t.narrow else t.full

/-- The tries of a mode are made anew, in memory that was free.  The input keeps the trie that it
has. -/
def renew (t : Tries) (m : Mode) : Tries :=
  { t with free := t.free + 2, full := ⟨t.free, m.fullTrie⟩, narrow := ⟨t.free + 1, m.narrowTrie⟩ }

/-- The input gets the trie that the mode asks for. -/
def assign (t : Tries) (m : Mode) : Tries := { t with input := t.asked m }

/-- The tries are those of the mode, at different addresses, and the input has the right one. -/
structure Fits (t : Tries) (m : Mode) : Prop where
  full : t.full.trie = m.fullTrie
  narrow : t.narrow.trie = m.narrowTrie
  apart : t.full.address ≠ t.narrow.address
  input : t.input = t.asked m

variable {t : Tries} {m after : Mode}

theorem fits_renew (t : Tries) (m : Mode) : ((t.renew m).assign m).Fits m :=
  ⟨rfl, rfl, Nat.ne_of_lt (Nat.lt_succ_self t.free), rfl⟩

/-- What the input has is the trie that the mode asks for. -/
theorem Fits.trie_eq (h : t.Fits m) : t.input.trie = m.keys := by
  rw [h.input, asked, Mode.keys_eq]
  split
  · exact h.narrow
  · exact h.full

theorem asked_narrow (h : m.isNarrow = true) : t.asked m = t.narrow := if_pos h

theorem asked_full (h : m.isNarrow = false) : t.asked m = t.full := if_neg (Bool.eq_false_iff.mp h)

/-- One address, one trie. -/
theorem Fits.asked_eq (h : t.Fits m) (hsame : (t.asked after).address = t.input.address) :
    t.input = t.asked after := by
  rw [h.input] at hsame ⊢
  cases hm : m.isNarrow with
  | false =>
    cases hafter : after.isNarrow with
    | false => rw [asked_full hm, asked_full hafter]
    | true =>
      rw [asked_full hm, asked_narrow hafter] at hsame
      exact absurd hsame.symm h.apart
  | true =>
    cases hafter : after.isNarrow with
    | false =>
      rw [asked_narrow hm, asked_full hafter] at hsame
      exact absurd hsame h.apart
    | true => rw [asked_narrow hm, asked_narrow hafter]

/-- With the same bindings the tries are the same, and the input may have either. -/
theorem Fits.assign (h : t.Fits m) (hpristine : after.pristine = m.pristine) :
    (t.assign after).Fits after := by
  have hfull : after.fullTrie = m.fullTrie := by
    rw [← after.fullTrie_pristine, hpristine, m.fullTrie_pristine]
  have hnarrow : after.narrowTrie = m.narrowTrie := by
    rw [← after.narrowTrie_pristine, hpristine, m.narrowTrie_pristine]
  exact ⟨h.full.trans hfull.symm, h.narrow.trans hnarrow.symm, h.apart, rfl⟩

/-- **Comparing addresses is enough**: where they are the same the input has the right trie. -/
theorem Fits.of_address (h : t.Fits m) (hpristine : after.pristine = m.pristine)
    (hsame : (t.asked after).address = t.input.address) : t.Fits after := by
  have hassign := h.assign hpristine
  rwa [Tries.assign, ← h.asked_eq hsame] at hassign

end Tries

/-! ## Demands -/

/-- What can be asked of an editor: a call, or to bind a sequence to the command of a name. -/
inductive Demand
  | call (call : Call)
  | bindNamed (sequence name : Text)
  deriving Repr

/-- The editor after a demand.  What is refused changes nothing. -/
def meet (e : Editor) : Demand → Editor
  | .call call => (e.serve call).1
  | .bindNamed sequence name => (e.addNamed sequence name).toOption.getD e

/-- The editor with one more sequence bound. -/
def extend (e : Editor) (sequence : Text) (command : Command) : Editor :=
  { e with
    mode := e.mode.extend sequence command
    input := e.input.setTrie (e.mode.extend sequence command).keys }

theorem addCommand_eq (e : Editor) (sequence : Text) (command : Command) :
    e.addCommand sequence command =
      match e.mode.obstacle? sequence with
      | some error => .error error
      | none => .ok (e.extend sequence command) := by
  rw [addCommand, Mode.addCommand_eq]
  cases e.mode.obstacle? sequence <;> rfl

/-- A sequence that could be bound had nothing in its way, and the editor is extended by it. -/
theorem addCommand_eq_ok_iff {e after : Editor} {sequence : Text} {command : Command} :
    e.addCommand sequence command = .ok after ↔
      e.mode.obstacle? sequence = none ∧ after = e.extend sequence command := by
  rw [addCommand_eq]
  cases e.mode.obstacle? sequence with
  | some error => simp
  | none => simp [eq_comm]

theorem addNamed_eq_ok_iff {e after : Editor} {sequence name : Text} :
    e.addNamed sequence name = .ok after ↔
      ∃ command, Command.ofName? name = some command ∧ e.mode.obstacle? sequence = none ∧
        after = e.extend sequence command := by
  rw [addNamed]
  cases Command.ofName? name with
  | none => simp
  | some command => simp [addCommand_eq_ok_iff]

/-! ## Editors that go by addresses -/

/-- An editor, and where its tries are. -/
structure Placed where
  editor : Editor
  tries : Tries

namespace Placed

/-- The editor whose input has the trie that it is said to have. -/
def of (e : Editor) (t : Tries) : Placed := ⟨{ e with input := e.input.setTrie t.input.trie }, t⟩

/-- A new mode, with tries of its own that the input does not have yet. -/
def install (m : Mode) (p : Placed) : Placed := ⟨{ p.editor with mode := m }, p.tries.renew m⟩

/-- The input gets the trie that the mode asks for. -/
def assign (p : Placed) : Placed := of p.editor (p.tries.assign p.editor.mode)

/-- Starts the mode of the configuration anew. -/
def rebuild (p : Placed) : Placed :=
  (p.install (.start p.editor.config.editingMode p.editor.report)).assign

/-- Goes on with what is there, or stops. -/
def attempt {α : Type} : Except BindingError α → ExceptT BindingError (StateM Placed) α
  | .ok a => pure a
  | .error error => throw error

/-- Binds a sequence to a command.  The table is stored first, the trie for the statuses in which
text is typed is made of it, and then the input gets a new trie. -/
def bind (sequence : Text) (command : Command) : ExceptT BindingError (StateM Placed) Unit := do
  match (← get).editor.mode with
  | .emacs m =>
    let table ← attempt (m.table.bindSequence sequence command)
    modify (install (.emacs { m with table := table }))
  | .vi m =>
    let table ← attempt (m.table.bindSequence sequence [Vi.addedEntry command])
    modify (install (.vi { m with table := table }))
    modify (install (.vi { m with table := table, insertTrie := Vi.insertTrieOf table }))
  modify assign

/-- Binds a sequence to the command of a name. -/
def bindNamed (sequence name : Text) : ExceptT BindingError (StateM Placed) Unit := do
  match Command.ofName? name with
  | none => throw (.unknownCommand name)
  | some command => bind sequence command

/-- The input gets the trie that the mode asks for, unless it has the one at that address. -/
def sync (p : Placed) : Placed :=
  if (p.tries.asked p.editor.mode).address = p.tries.input.address then p else p.assign

/-- Deals with one keystroke.  Even if that fails, the addresses are compared afterwards. -/
def handle (p : Placed) (stroke : Stroke) : Placed × Handled :=
  let (e, result) := p.editor.perform stroke
  (sync ⟨e, p.tries⟩, result)

/-- The states after each keystroke of a run, as long as `fuel` lasts. -/
def runWithin : Nat → Placed → List Placed
  | 0, _ => []
  | fuel + 1, p =>
    match p.editor.input.next? with
    | none => []
    | some (stroke, input) =>
      match handle ⟨{ p.editor with input := input }, p.tries⟩ stroke with
      | (after, .error _) => [after]
      | (after, .ok _) => after :: runWithin fuel after

/-- The states after bytes arrived, and then after each keystroke. -/
def write (p : Placed) (bytes : List UInt8) : List Placed :=
  let decoded := p.editor.decoder.decode bytes
  match decoded.error with
  | some _ => [⟨{ p.editor with decoder := decoded.decoder }, p.tries⟩]
  | none =>
    let fed : Placed := ⟨p.editor.receive decoded.decoder decoded.text, p.tries⟩
    fed :: runWithin fed.editor.input.pending.length fed

/-- The states that a demand leads through. -/
def meet (p : Placed) : Demand → List Placed
  | .call (.write bytes) => p.write bytes
  | .call (.setEditingMode mode) =>
    let config := { p.editor.config with editingMode := mode }
    [rebuild ⟨{ p.editor with config := config }, p.tries⟩]
  | .call (.bind sequence command) => [((bind sequence command).run p).2]
  | .call (.setDevice report) => [rebuild ⟨{ p.editor with report := report }, p.tries⟩]
  | .call (.setCharset charset) => [⟨p.editor.withCharset charset, p.tries⟩]
  | .bindNamed sequence name => [((bindNamed sequence name).run p).2]

/-- The states that one demand after another leads through. -/
def lifetime (p : Placed) : List Demand → List Placed
  | [] => []
  | demand :: rest => p.meet demand ++ ((p.meet demand).getLastD p).lifetime rest

/-! ## Each step keeps up -/

/-- The tries are those of the mode, which cuts input by what it has bound, and the input has the
trie that it is said to have. -/
structure InTune (p : Placed) : Prop where
  tuned : p.editor.mode.Tuned
  fits : p.tries.Fits p.editor.mode
  held : p.editor.input.trie = p.tries.input.trie

variable {p q : Placed} {e after : Editor} {t : Tries} {sequence name : Text} {command : Command}

/-- Where the tries fit, the input gets the trie of the mode. -/
theorem of_eq (h : t.Fits e.mode) :
    of e t = ⟨{ e with input := e.input.setTrie e.mode.keys }, t⟩ := by
  rw [of, h.trie_eq]

theorem inTune_of (htuned : e.mode.Tuned) (h : t.Fits e.mode) : (of e t).InTune :=
  ⟨htuned, h, rfl⟩

/-- After a change of state that leaves the bindings alone, comparing addresses makes up for it. -/
theorem InTune.sync (h : p.InTune) (hpristine : e.mode.pristine = p.editor.mode.pristine)
    (hinput : e.input = p.editor.input) :
    (sync ⟨e, p.tries⟩).InTune ∧
      (sync ⟨e, p.tries⟩).editor = { e with input := e.input.setTrie e.mode.keys } := by
  have htuned := h.tuned.of_pristine hpristine
  rw [Placed.sync]
  split
  · next hsame =>
    have hfits := h.fits.of_address hpristine hsame
    have hheld : e.input.trie = p.tries.input.trie := (congrArg KeyInput.trie hinput).trans h.held
    refine ⟨⟨htuned, hfits, hheld⟩, ?_⟩
    rw [← hfits.trie_eq, ← hheld]
    rfl
  · have hfits := h.fits.assign hpristine
    exact ⟨inTune_of htuned hfits, congrArg Placed.editor (of_eq hfits)⟩

/-- **A keystroke keeps up**, whether it fails or not. -/
theorem InTune.handle (h : p.InTune) (stroke : Stroke) :
    (p.handle stroke).1.InTune ∧ (p.handle stroke).1.editor = (p.editor.handle stroke).1 ∧
      (p.handle stroke).2 = (p.editor.handle stroke).2 := by
  have hinput : (p.editor.perform stroke).1.input = p.editor.input :=
    congrArg (fun performed => performed.1.input)
      (p.editor.perform_withSource p.editor.decoder p.editor.input stroke)
  obtain ⟨htune, hsame⟩ := h.sync (p.editor.keeps_perform stroke).bindings hinput
  exact ⟨htune, hsame, rfl⟩

theorem inTune_rebuild (p : Placed) : p.rebuild.InTune :=
  inTune_of (Mode.tuned_start _ _) (Tries.fits_renew _ _)

theorem editor_rebuild (p : Placed) : p.rebuild.editor = p.editor.rebuild :=
  congrArg Placed.editor (of_eq (Tries.fits_renew _ _))

/-- What binding a sequence comes to, given what the editor that always takes the trie of its mode
answers: the same, and nothing has changed if that is an error. -/
inductive Answers (p : Placed) :
    Except BindingError Editor → Except BindingError Unit × Placed → Prop
  | refused (error : BindingError) : Answers p (.error error) (.error error, p)
  | bound {after : Editor} {t : Tries} (fits : t.Fits after.mode)
      (held : after.input.trie = t.input.trie) : Answers p (.ok after) (.ok (), ⟨after, t⟩)

theorem Answers.eq_of_error {answer : Except BindingError Editor} {error : BindingError}
    (h : p.Answers answer (.error error, q)) : q = p := by
  cases h
  rfl

theorem answers_install (t : Tries) (m : Mode) :
    p.Answers (.ok { p.editor with mode := m, input := p.editor.input.setTrie m.keys })
      (.ok (), assign ⟨{ p.editor with mode := m }, t.renew m⟩) := by
  have hfits := Tries.fits_renew t m
  rw [assign, of_eq hfits]
  exact .bound hfits hfits.trie_eq.symm

/-- **Binding a sequence step by step** comes to the same, and leaves no trace if it is refused: the
table answers before anything is stored. -/
theorem answers_bind (p : Placed) (sequence : Text) (command : Command) :
    p.Answers (p.editor.addCommand sequence command) ((bind sequence command).run p) := by
  rw [Editor.addCommand]
  obtain ⟨⟨config, report, decoder, input, mode, desk, prompt, sink, heard⟩, t⟩ := p
  cases mode with
  | emacs m =>
    change Answers _ _ (((attempt (m.table.bindSequence sequence command) >>= _) :
      ExceptT _ _ _).run _)
    dsimp only
    rw [Mode.addCommand, Emacs.addCommand]
    cases m.table.bindSequence sequence command with
    | error error => exact .refused error
    | ok table => exact answers_install t (.emacs { m with table := table })
  | vi m =>
    change Answers _ _ (((attempt (m.table.bindSequence sequence [Vi.addedEntry command]) >>= _) :
      ExceptT _ _ _).run _)
    dsimp only
    rw [Mode.addCommand, Vi.addCommand]
    cases m.table.bindSequence sequence [Vi.addedEntry command] with
    | error error => exact .refused error
    | ok table =>
      -- the table is stored before the second trie is made of it
      let stored := t.renew (.vi { m with table := table })
      exact answers_install stored
        (.vi { m with table := table, insertTrie := Vi.insertTrieOf table })

theorem answers_bindNamed (p : Placed) (sequence name : Text) :
    p.Answers (p.editor.addNamed sequence name) ((bindNamed sequence name).run p) := by
  rw [Editor.addNamed, bindNamed]
  cases Command.ofName? name with
  | none => exact .refused (.unknownCommand name)
  | some command => exact p.answers_bind sequence command

/-- What is answered keeps up with what is asked for. -/
theorem Answers.inTune {answer : Except BindingError Editor}
    {result : Except BindingError Unit × Placed} (hp : p.InTune) (h : p.Answers answer result)
    (htuned : ∀ after, answer = .ok after → after.mode.Tuned) :
    result.2.InTune ∧ result.2.editor = answer.toOption.getD p.editor := by
  cases h with
  | refused error => exact ⟨hp, rfl⟩
  | bound fits held => exact ⟨⟨htuned _ rfl, fits, held⟩, rfl⟩

theorem InTune.bind (h : p.InTune) (sequence : Text) (command : Command) :
    ((bind sequence command).run p).2.InTune ∧
      ((bind sequence command).run p).2.editor =
        (p.editor.addCommand sequence command).toOption.getD p.editor := by
  refine (p.answers_bind sequence command).inTune h ?_
  intro after hafter
  obtain ⟨hfree, rfl⟩ := addCommand_eq_ok_iff.mp hafter
  exact h.tuned.extend hfree command

theorem InTune.bindNamed (h : p.InTune) (sequence name : Text) :
    ((bindNamed sequence name).run p).2.InTune ∧
      ((bindNamed sequence name).run p).2.editor =
        (p.editor.addNamed sequence name).toOption.getD p.editor := by
  refine (p.answers_bindNamed sequence name).inTune h ?_
  intro after hafter
  obtain ⟨command, -, hfree, rfl⟩ := addNamed_eq_ok_iff.mp hafter
  exact h.tuned.extend hfree command

/-! ## Lifetimes -/

/-- States that an editor goes through, all in tune, and the last of them is the given one. -/
structure Leads (p : Placed) (states : List Placed) (e : Editor) : Prop where
  inTune : ∀ q ∈ states, q.InTune
  last : (states.getLastD p).editor = e

theorem leads_nil (p : Placed) : p.Leads [] p.editor :=
  ⟨fun _ hmem => absurd hmem List.not_mem_nil, rfl⟩

theorem Leads.cons {states : List Placed} (hq : q.InTune) (h : q.Leads states e) :
    p.Leads (q :: states) e := by
  refine ⟨List.forall_mem_cons.mpr ⟨hq, h.inTune⟩, ?_⟩
  rw [List.getLastD_cons]
  exact h.last

theorem leads_singleton (hq : q.InTune) (hlast : q.editor = e) : p.Leads [q] e :=
  ⟨List.forall_mem_singleton.mpr hq, hlast⟩

theorem Leads.inTune_last {states : List Placed} (hp : p.InTune) (h : p.Leads states e) :
    (states.getLastD p).InTune := by
  cases states with
  | nil => exact hp
  | cons q rest =>
    rw [List.getLastD_eq_getLast?, List.getLast?_eq_getLast_of_ne_nil (List.cons_ne_nil q rest)]
    exact h.inTune _ (List.getLast_mem _)

theorem Leads.append {states more : List Placed} (h : p.Leads states e)
    (hmore : (states.getLastD p).Leads more after) : p.Leads (states ++ more) after := by
  induction states generalizing p with
  | nil => exact hmore
  | cons q rest ih =>
    obtain ⟨hq, hrest⟩ := List.forall_mem_cons.mp h.inTune
    rw [List.getLastD_cons] at hmore
    exact (ih ⟨hrest, by rw [← h.last, List.getLastD_cons]⟩ hmore).cons hq

/-- A run goes through states that are in tune, and ends as the run that always takes the trie of
the mode. -/
theorem InTune.runWithin (h : p.InTune) (fuel : Nat) :
    p.Leads (runWithin fuel p) (Editor.runWithin fuel p.editor).1 := by
  induction fuel generalizing p with
  | zero => exact leads_nil p
  | succ fuel ih =>
    rw [Placed.runWithin, Editor.runWithin]
    cases hnext : p.editor.input.next? with
    | none => exact leads_nil p
    | some taken =>
      obtain ⟨stroke, input⟩ := taken
      have htrie := KeyInput.trie_of_next? hnext
      have htaken : InTune ⟨{ p.editor with input := input }, p.tries⟩ :=
        ⟨h.tuned, h.fits, htrie.trans h.held⟩
      obtain ⟨hafter, hsame, hresult⟩ := htaken.handle stroke
      dsimp only
      generalize Placed.handle _ stroke = handled at hafter hsame hresult ⊢
      obtain ⟨after, result⟩ := handled
      generalize Editor.handle _ stroke = expected at hsame hresult ⊢
      obtain ⟨middle, expected⟩ := expected
      obtain rfl : after.editor = middle := hsame
      obtain rfl : result = expected := hresult
      cases result with
      | error error => exact leads_singleton hafter rfl
      | ok outcome? => exact (ih hafter).cons hafter

theorem InTune.write (h : p.InTune) (bytes : List UInt8) :
    p.Leads (p.write bytes) (p.editor.write bytes).1 := by
  rw [Placed.write]
  dsimp only
  cases hdecode : (p.editor.decoder.decode bytes).error with
  | some error =>
    rw [write_of_error hdecode]
    exact leads_singleton ⟨h.tuned, h.fits, h.held⟩ rfl
  | none =>
    rw [write_of_decoded hdecode]
    have hfed : InTune ⟨p.editor.receive (p.editor.decoder.decode bytes).decoder
        (p.editor.decoder.decode bytes).text, p.tries⟩ := ⟨h.tuned, h.fits, h.held⟩
    exact (hfed.runWithin _).cons hfed

/-- **A demand keeps up.** -/
theorem InTune.meet (h : p.InTune) (demand : Demand) :
    p.Leads (p.meet demand) (p.editor.meet demand) := by
  cases demand with
  | call call =>
    cases call with
    | write bytes => exact h.write bytes
    | setEditingMode mode => exact leads_singleton (inTune_rebuild _) (editor_rebuild _)
    | bind sequence command =>
      obtain ⟨hafter, hsame⟩ := h.bind sequence command
      exact leads_singleton hafter hsame
    | setDevice report => exact leads_singleton (inTune_rebuild _) (editor_rebuild _)
    | setCharset charset => exact leads_singleton ⟨h.tuned, h.fits, h.held⟩ rfl
  | bindNamed sequence name =>
    obtain ⟨hafter, hsame⟩ := h.bindNamed sequence name
    exact leads_singleton hafter hsame

/-- **So does a lifetime.** -/
theorem InTune.lifetime (h : p.InTune) (demands : List Demand) :
    p.Leads (p.lifetime demands) (demands.foldl Editor.meet p.editor) := by
  induction demands generalizing p with
  | nil => exact leads_nil p
  | cons demand rest ih =>
    have hdemand := h.meet demand
    have hrest := ih (hdemand.inTune_last h)
    rw [hdemand.last] at hrest
    exact hdemand.append hrest

/-! ## What holds at all times -/

/-- What changes when a sequence is bound to a command. -/
structure Binds (e after : Editor) (sequence : Text) (command : Command) : Prop where
  extended : after = e.extend sequence command
  pending : after.input.pending = e.input.pending
  strokes : after.mode.strokes = e.mode.strokes ++ [.ofSequence sequence]
  active : after.mode.active =
    if e.mode.isNarrow then e.mode.active else e.mode.active ++ [.ofSequence sequence]
  added : after.mode.fullTrie.TakesAlone sequence (.ofSequence sequence)
  /-- What was bound stands for itself, before and after. -/
  bound : ∀ s ∈ e.mode.sequences, ∃ stroke, stroke.sequence = s ∧
    e.mode.fullTrie.TakesAlone s stroke ∧ after.mode.fullTrie.TakesAlone s stroke
  /-- So does what input was cut by. -/
  cutting : ∀ s ∈ e.mode.active.map Stroke.sequence, ∃ stroke, stroke.sequence = s ∧
    e.input.trie.TakesAlone s stroke ∧ after.input.trie.TakesAlone s stroke

/-- Input is cut by the active sequences, in whatever order they are bound, and binding one more
goes through or leaves no trace. -/
structure Current (p : Placed) : Prop where
  held : p.tries.input.trie = p.editor.input.trie
  cuts : ∀ strokes, strokes.Perm p.editor.mode.active → ∀ text,
    Trie.Resolves strokes text (p.editor.input.trie.resolve text)
  /-- The steps of binding a sequence come to what `addNamed` answers. -/
  answers : ∀ sequence name,
    p.Answers (p.editor.addNamed sequence name) ((bindNamed sequence name).run p)
  refused : ∀ sequence name error after,
    (bindNamed sequence name).run p = (.error error, after) → after = p
  accepted_iff : ∀ sequence name, (∃ after, p.editor.addNamed sequence name = .ok after) ↔
    (Command.ofName? name).isSome = true ∧ sequence ≠ [] ∧ sequence ∉ p.editor.mode.sequences
  accepted : ∀ sequence name after, p.editor.addNamed sequence name = .ok after →
    ∃ command, Command.ofName? name = some command ∧ Binds p.editor after sequence command

theorem InTune.binds (h : p.InTune) (hfree : p.editor.mode.obstacle? sequence = none)
    (command : Command) :
    Binds p.editor (p.editor.extend sequence command) sequence command := by
  obtain ⟨hbound, hadded⟩ := h.tuned.takesAlone_extend hfree command
  refine ⟨rfl, rfl, Mode.strokes_extend .., Mode.active_extend .., hadded, hbound, ?_⟩
  intro s hs
  rw [h.held.trans h.fits.trie_eq]
  exact h.tuned.takesAlone_keys_extend hfree command hs

theorem InTune.cuts (h : p.InTune) {strokes : List Stroke}
    (hperm : strokes.Perm p.editor.mode.active) (text : Text) :
    Trie.Resolves strokes text (p.editor.input.trie.resolve text) := by
  have hdistinct : (strokes.map Stroke.sequence).Nodup :=
    (hperm.map Stroke.sequence).nodup_iff.mpr
      (h.tuned.distinct.sublist (p.editor.mode.active_sublist.map Stroke.sequence))
  rw [h.held.trans h.fits.trie_eq, Mode.keys_eq_ofList h.tuned.frozen]
  exact (Trie.resolves_resolve _ text).of_perm hperm.symm hdistinct

theorem InTune.current (h : p.InTune) : p.Current := by
  have hanswers := p.answers_bindNamed
  refine ⟨h.held.symm, fun strokes hperm => h.cuts hperm, hanswers, ?_, ?_, ?_⟩
  · intro sequence name error after hrun
    exact (hrun ▸ hanswers sequence name).eq_of_error
  · intro sequence name
    rw [← Mode.obstacle?_eq_none_iff]
    constructor
    · rintro ⟨after, hadd⟩
      obtain ⟨command, hname, hfree, -⟩ := addNamed_eq_ok_iff.mp hadd
      exact ⟨Option.isSome_of_eq_some hname, hfree⟩
    · rintro ⟨hknown, hfree⟩
      obtain ⟨command, hname⟩ := Option.isSome_iff_exists.mp hknown
      exact ⟨_, addNamed_eq_ok_iff.mpr ⟨command, hname, hfree, rfl⟩⟩
  · intro sequence name after hadd
    obtain ⟨command, hname, hfree, rfl⟩ := addNamed_eq_ok_iff.mp hadd
    exact ⟨command, hname, h.binds hfree command⟩

/-- An editor that was just made, with tries in free memory. -/
def start (config : Config) (sink : Sink) (desk : Desk) (prompt : Text)
    (heard : Option (List Event)) (t : Tries) : Placed :=
  let e : Editor := { new config sink with desk := desk, prompt := prompt, heard := heard }
  of e ((t.renew e.mode).assign e.mode)

end Placed

/-- **Input is always cut by the active sequences.** -/
theorem cuts_by_active (config : Config) (sink : Sink) (desk : Desk) (prompt : Text)
    (heard : Option (List Event)) (t : Tries) (demands : List Demand) :
    let p := Placed.start config sink desk prompt heard t
    ((p.lifetime demands).getLastD p).editor = demands.foldl meet p.editor ∧
      ∀ q ∈ p :: p.lifetime demands, q.Current := by
  intro p
  have hp : p.InTune := Placed.inTune_of (Mode.tuned_start _ _) (Tries.fits_renew _ _)
  have hlife := hp.lifetime demands
  refine ⟨hlife.last, ?_⟩
  intro q hq
  obtain rfl | hq := List.mem_cons.mp hq
  · exact hp.current
  · exact (hlife.inTune q hq).current

/-- An escape leads to command status, and the input gets the trie at the other address. -/
example :
    let desk : Desk := ⟨.empty false, .empty 1, .empty 1⟩
    let unused : Shared := ⟨0, .nil⟩
    let p := Placed.start { Config.default with editingMode := .vi } (.reliable .utf8) desk [] none
      ⟨0, unused, unused, unused⟩
    (p :: p.lifetime [.call (.write [0x61, 0x1B, 0x30])]).map (·.tries.input.address) =
      [1, 1, 1, 0, 0] := by
  decide +kernel

end Editor

end PromptLine
