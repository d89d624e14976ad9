import PromptLine.Proofs.Editor.FocusedKeys
import PromptLine.Proofs.Editor.LineEnds
import PromptLine.Proofs.Editor.MetaChords
import PromptLine.Proofs.Key.Conservation
import PromptLine.Proofs.Mode.WayOut

/-!
# No state is a trap

Whatever was written to an editor, a few keys bring it back to an empty line with the mode as it was
at first: in the plain mode the key that gives the line up, typed twice, and in the modal one two
escapes and that key.  Nobody who types them needs to know what the editor is in the middle of.

The first of the keys may find input waiting in front of it.  An escape is never waited behind, so
when it has been written everything before it has been cut, and the escape was the last key.  What
the input before it was cut into makes no difference: the keys before the escape lead from a steady
editor to a steady one.

There is one state that no key leads out of, and only a machine that checks its sums has it: it has
stopped at a fault (`checked_serveAll_iff`).
-/

namespace PromptLine

namespace Mode

variable {m : Mode} {k after : KeyInput} {stroke : Stroke}

theorem exists_emacs {m : Mode} (h : m.editingMode = .emacs) : ∃ e, m = emacs e := by
  cases m with
  | emacs m => exact ⟨m, rfl⟩
  | vi m => cases h

theorem exists_vi {m : Mode} (h : m.editingMode = .vi) : ∃ v, m = vi v := by
  cases m with
  | emacs m => cases h
  | vi m => exact ⟨m, rfl⟩

theorem editingMode_of_pristine {m n : Mode} (h : m.pristine = n.pristine) :
    m.editingMode = n.editingMode := by
  have hpristine : ∀ m : Mode, m.pristine.editingMode = m.editingMode := by
    intro m
    cases m <;> rfl
  rw [← hpristine m, h, hpristine n]

/-- No key has an escape behind its first code point. -/
theorem Usual.escape_notMem_tail (h : m.Usual) (htrie : k.trie = m.keys)
    (hnext : k.next? = some (stroke, after)) : escape ∉ stroke.sequence.tail := by
  obtain ⟨hready, -, -⟩ := KeyInput.next?_eq_some hnext
  have hresolves := Trie.resolves_resolve m.active k.pending
  rw [KeyInput.peek?, KeyInput.resolve, htrie, keys_eq_ofList h.frozen] at hready
  generalize k.pending = pending at hresolves hready
  generalize (Trie.ofList m.active).resolve pending = resolution at hresolves hready
  cases hresolves with
  | nothing => cases hready
  | incomplete => cases hready
  | unbound =>
    cases hready
    exact List.not_mem_nil
  | matched _ _ _ latest =>
    cases hready
    exact h.onlyEscapeNests.leads stroke
      (mem_strokes_of_mem_active (Trie.sequence_of_latest? latest).1)

/-- Input that has its only escape at the end: a key is taken from before it, or it is the key. -/
theorem Usual.next?_before_escape (h : m.Usual) (htrie : k.trie = m.keys)
    (hnext : k.next? = some (stroke, after)) {text : Text} (htext : escape ∉ text)
    (hpending : k.pending = text ++ [escape]) :
    (∃ rest, escape ∉ rest ∧ after.pending = rest ++ [escape]) ∨
      stroke.sequence = [escape] ∧ after.pending = [] := by
  have htail := h.escape_notMem_tail htrie hnext
  have hsplit := KeyInput.sequence_append_pending (htrie.trans (keys_eq_ofList h.frozen)) hnext
  rw [hpending, List.append_eq_append_iff] at hsplit
  rcases hsplit with ⟨rest, htaken, hrest⟩ | ⟨last, hlast, hescape⟩
  · refine .inl ⟨rest, fun hmem => htext ?_, hrest⟩
    rw [htaken]
    exact List.mem_append_right _ hmem
  · cases last with
    | nil => exact .inl ⟨[], List.not_mem_nil, hescape.symm⟩
    | cons c last =>
      obtain ⟨rfl, hnil⟩ := List.cons.inj hescape
      obtain ⟨rfl, hnothing⟩ := List.append_eq_nil_iff.mp hnil.symm
      refine .inr ⟨?_, hnothing⟩
      cases text with
      | nil => exact hlast
      | cons first text =>
        rw [hlast] at htail
        exact absurd (List.mem_append_right text (List.mem_singleton_self escape)) htail

end Mode

namespace Editor

/-! ## Steady editors -/

/-- An editor with the usual keys, in a state that keys lead to. -/
structure Steady (e : Editor) : Prop where
  synced : e.Synced
  usual : e.mode.Usual
  mode : e.mode.Steady

variable {e : Editor} {stroke : Stroke}

/-- **An editor stays steady**, whatever the key and the rest of the input. -/
theorem Steady.handle (h : e.Steady) (stroke : Stroke) (input : KeyInput) :
    (handle { e with input := input } stroke).1.Steady := by
  obtain ⟨mode, husual⟩ := h.usual
  have hkeeps := keeps_handle { e with input := input } stroke
  refine ⟨synced_handle _ stroke, ⟨mode, hkeeps.bindings.trans husual⟩, ?_⟩
  rcases hparse : e.mode.parse stroke with ⟨after, action?⟩
  obtain ⟨hafter, htaken⟩ := h.mode.parse h.usual hparse
  have hpressed := pressed (e := { e with input := input }) hparse
  change (press { e with input := input } stroke).mode.Steady
  generalize (press { e with input := input } stroke).mode = mode,
    (press { e with input := input } stroke).desk = desk at hpressed ⊢
  cases hpressed with
  | idle => exact hafter
  | goesOn => exact htaken _ rfl _
  | ends => exact Mode.steady_reset _

theorem Reached.steady (h : e.Reached) : e.Steady := by
  refine ⟨h.waiting.synced, h.waiting.usual, ?_⟩
  induction h with
  | new config => exact Mode.steady_start _ _
  | charset _ _ ih => exact ih
  | listener _ ih => exact ih
  | prompt _ _ ih => exact ih
  | desk _ _ ih => exact ih
  | @write e bytes before ih =>
    rcases e.write_cases bytes with ⟨decoder, error, hwrite⟩ | ⟨decoder, text, hwrite⟩
    · rw [hwrite]
      exact ih
    · have hreceived : (e.receive decoder text).Steady :=
        ⟨before.waiting.synced, before.waiting.usual, ih⟩
      have hrun := (runs_run (e.receive decoder text)).preserves
        (fun _ stroke input hmiddle _ => hmiddle.handle stroke input) hreceived
      rw [hwrite]
      exact hrun.mode

/-! ## What an escape finds -/

/-- **When an escape has been read, it was the last key.**  Everything before it was cut into keys,
and nothing waits behind it. -/
theorem Runs.exists_escape {after : Editor} {result : Except EditorError (List Outcome)}
    (h : Runs e after result) {outcomes : List Outcome} (hok : result = .ok outcomes)
    (hsteady : e.Steady) {text : Text} (htext : escape ∉ text)
    (hpending : e.input.pending = text ++ [escape]) :
    ∃ (before : Editor) (stroke : Stroke), before.Steady ∧ e.Keeps before ∧
      stroke.sequence = [escape] ∧ after = before.press stroke ∧ after.input.pending = [] := by
  induction h generalizing outcomes text with
  | @idle e waits =>
    have hnone := hsteady.usual.escape_notMem_pending hsteady.synced waits
    rw [hpending] at hnone
    exact absurd (List.mem_append_right text (List.mem_singleton_self escape)) hnone
  | failed => cases hok
  | @next e middle after stroke input outcome? result ready handled rest ih =>
    obtain ⟨outcomes, rfl⟩ : ∃ outcomes, result = .ok outcomes := by
      cases result with
      | error error => cases hok
      | ok outcomes => exact ⟨outcomes, rfl⟩
    have htaken : e.Keeps { e with input := input } := ⟨rfl, rfl, rfl, rfl, rfl, rfl, rfl⟩
    have hmiddle := hsteady.handle stroke input
    have hkeeps := htaken.trans (keeps_handle { e with input := input } stroke)
    have hleft := pending_handle { e with input := input } stroke
    rcases hsteady.usual.next?_before_escape hsteady.synced ready htext hpending with
      ⟨early, hearly, hinput⟩ | ⟨hstroke, hinput⟩
    · rw [handled] at hmiddle hkeeps hleft
      obtain ⟨before, last, hbefore, hkept, hrest⟩ :=
        ih rfl hmiddle hearly (hleft.trans hinput)
      exact ⟨before, last, hbefore, hkeeps.trans hkept, hrest⟩
    · rw [handled] at hleft
      have hlast : middle.input.pending = [] := hleft.trans hinput
      have hbefore : Steady { e with input := input } :=
        ⟨(KeyInput.trie_of_next? ready).trans hsteady.synced, hsteady.usual, hsteady.mode⟩
      obtain ⟨rfl, -⟩ := rest.unique (.idle (KeyInput.next?_of_pending_eq_nil hlast))
      exact ⟨{ e with input := input }, stroke, hbefore, htaken, hstroke,
        (congrArg Prod.fst handled).symm, hlast⟩

/-! ## What is written -/

/-- The key that gives the line up has bytes of its own in every charset. -/
theorem substitute_interrupt (charset : Charset) :
    charset.substitute interruptCode = interruptCode := by
  cases charset <;> rfl

/-- A code point that has bytes of its own arrives as it was written. -/
theorem write_single (hclear : e.decoder.Clear) {c : Char}
    (hc : e.decoder.charset.substitute c = c) :
    ∃ last : Decoder, last.Clear ∧ last.charset = e.decoder.charset ∧
      e.write (e.decoder.charset.encode [c]) = (e.receive last [c]).run := by
  have hdecode := hclear.decode_encode [c]
  rw [List.map_singleton, hc] at hdecode
  refine ⟨(e.decoder.decode (e.decoder.charset.encode [c])).decoder, ?_, ?_, ?_⟩
  · rw [hdecode]
    exact ⟨hclear.works, hclear.pending⟩
  · rw [hdecode]
  · rw [write_of_decoded (by rw [hdecode]), hdecode]

/-- A code point that is a key by itself, and is written to an editor that holds nothing back, is
pressed. -/
theorem write_key (h : e.Waiting) (hclear : e.decoder.Clear) (hpending : e.input.pending = [])
    {c : Char} (hc : e.decoder.charset.substitute c = c)
    (hactive : ∃ stroke ∈ e.mode.active, stroke.sequence = [c]) :
    ∃ (stroke : Stroke) (decoder : Decoder) (input : KeyInput), stroke.sequence = [c] ∧
      decoder.Clear ∧ decoder.charset = e.decoder.charset ∧ input.pending = [] ∧
        e.write (e.decoder.charset.encode [c]) =
          ((e.press stroke).withSource decoder input, (e.handle stroke).2.map Option.toList) := by
  obtain ⟨last, hlast, hcharset, hwrite⟩ := write_single hclear hc
  obtain ⟨bound, hbound, hsequence⟩ := hactive
  have hfed : (e.input.feed [c]).pending = [c] := by
    rw [KeyInput.pending_feed, hpending]
    rfl
  have hmem : (e.input.feed [c]).pending ∈ e.mode.active.map Stroke.sequence := by
    rw [hfed, ← hsequence]
    exact List.mem_map_of_mem hbound
  have htrie : (e.input.feed [c]).trie = .ofList e.mode.active :=
    h.synced.trans (Mode.keys_eq_ofList h.usual.frozen)
  have hne : (e.input.feed [c]).pending ≠ [] := by
    rw [hfed]
    exact List.cons_ne_nil c []
  obtain ⟨stroke, hstroke, hnext⟩ := KeyInput.next?_of_mem htrie hne hmem
  have hhandle := e.handle_withSource last { e.input.feed [c] with pending := [] } stroke
  refine ⟨stroke, last, ⟨[], (e.perform stroke).1.mode.keys⟩, hstroke.trans hfed, hlast, hcharset,
    rfl, ?_⟩
  rw [hwrite, run_of_last (e := e.receive last [c]) hnext rfl]
  exact congrArg (fun handled : Editor × Handled => (handled.1, handled.2.map Option.toList))
    hhandle

/-- An escape that is written is the last key, and leaves nothing to wait for. -/
theorem write_escape (h : e.Reached) (hclear : e.decoder.Clear) :
    let after := (e.write (e.decoder.charset.encode [escape])).1
    (∃ (before : Editor) (stroke : Stroke), before.Steady ∧
      before.mode.pristine = e.mode.pristine ∧ stroke.sequence = [escape] ∧
        after.mode = (before.press stroke).mode) ∧
      after.input.pending = [] ∧ after.decoder.Clear ∧
        after.decoder.charset = e.decoder.charset := by
  intro after
  obtain ⟨last, hlast, hcharset, hwrite⟩ := write_single hclear (substitute_escape _)
  have hreceived : (e.receive last [escape]).Steady :=
    ⟨h.steady.synced, h.steady.usual, h.steady.mode⟩
  have hnone := h.waiting.usual.escape_notMem_pending h.waiting.synced h.waiting.waits
  have hruns := runs_run (e.receive last [escape])
  obtain ⟨outcomes, hok⟩ := hruns.ok_of_reliable h.waiting.reliable
  obtain ⟨before, stroke, hbefore, hkeeps, hstroke, hpress, hpending⟩ :=
    hruns.exists_escape hok hreceived hnone rfl
  have hafter : after = (e.receive last [escape]).run.1 := congrArg Prod.fst hwrite
  have hdecoder : after.decoder = last := hafter ▸ hruns.keeps.decoder
  refine ⟨⟨before, stroke, hbefore, hkeeps.bindings, hstroke, ?_⟩, ?_, ?_, ?_⟩
  · rw [hafter, hpress]
  · rw [hafter, hpending]
  · rw [hdecoder]
    exact hlast
  · rw [hdecoder, hcharset]

/-! ## Keys that lead out -/

/-- An action in focus lets go, and the line goes on. -/
theorem press_of_held {f : Focus} (hfocus : e.mode.focus? = some f) (hheld : f.isHeld = true)
    {command : Command} (hcommand : command = .interrupt ∨ command = .viCommandMode)
    (hbound : e.mode.textCommand? stroke = some command) (hstroke : stroke.printable? = none) :
    ∃ g : Focus, g.isHeld = false ∧ (e.press stroke).mode = e.mode.refocus g := by
  obtain ⟨hletsGo, houtcome⟩ := f.lets_go hcommand hstroke e.setting e.desk
  refine ⟨_, hletsGo, (press_taken hfocus hheld (by rw [hbound]) ?_).1⟩
  rw [houtcome]
  rfl

/-- The command that gives the line up does so, whatever the line is. -/
theorem interrupted_of_parse (hreliable : e.sink.Reliable) {mode : Mode} {count : Nat}
    (hparse : e.mode.parse stroke = (mode, some (.plain .interrupt count))) :
    (e.handle stroke).2 = .ok (some .interrupted) := by
  change (e.perform stroke).2 = _
  rw [perform_of_action hreliable hparse]
  rfl

/-- **The first key in the plain mode.**  Whatever it finds, after it no action has the focus and
the leader is idle. -/
theorem press_interrupt_emacs (h : e.Steady) {m : Emacs} (hmode : e.mode = .emacs m)
    (hstroke : stroke.sequence = [interruptCode]) :
    ∃ after : Emacs, (e.press stroke).mode = .emacs after ∧
      after.focus.any Focus.isHeld = false ∧ after.leader = .idle := by
  have husual := h.usual
  have hsteady := h.mode
  rw [hmode] at husual hsteady
  cases hheld : m.focus.any Focus.isHeld with
  | true =>
    have hidle := hsteady.resolve_right (by rw [hheld]; decide)
    obtain ⟨f, hfocus, hf⟩ := (Option.any_eq_true _ _).mp hheld
    have hfocus : e.mode.focus? = some f := by
      rw [hmode]
      exact hfocus
    obtain ⟨g, hg, hpress⟩ := press_of_held hfocus hf (.inl rfl)
      (h.usual.textCommand?_interrupt hstroke) (Stroke.printable?_interrupt hstroke)
    rw [hmode] at hpress
    exact ⟨{ m with focus := some g }, hpress, hg, hidle⟩
  | false =>
    cases hleader : m.leader with
    | armed =>
      have hparse := Mode.parse_emacs
        (Emacs.parse_interrupt_of_armed husual.table_emacs hstroke hheld hleader)
      rw [← hmode] at hparse
      exact ⟨_, (press_of_idle hparse).1, rfl, rfl⟩
    | idle =>
      have hparse := Mode.parse_emacs
        (Emacs.parse_interrupt_of_idle husual.table_emacs hstroke hheld hleader)
      rw [← hmode] at hparse
      have hpressed := pressed hparse
      generalize (e.press stroke).mode = mode, (e.press stroke).desk = desk at hpressed ⊢
      cases hpressed with
      | goesOn applied unfinished =>
        cases applied
        cases unfinished
      | ends => exact ⟨_, rfl, rfl, rfl⟩

/-- Escape is answered by command status, if no action has the focus. -/
theorem press_escape_of_free (h : e.Steady) {m : Vi} (hmode : e.mode = .vi m)
    (hfree : m.focus.any Focus.isHeld = false) (hstroke : stroke.sequence = [escape]) :
    ∃ after : Vi, (e.press stroke).mode = .vi after ∧ after.Calm := by
  have husual := h.usual
  have hstatus := h.mode
  rw [hmode] at husual hstatus
  obtain ⟨hcalm, hplain⟩ := Vi.parse_escape husual.table_vi hstatus hfree hstroke
  rcases hparse : m.parse stroke with ⟨after, action?⟩
  rw [hparse] at hcalm hplain
  have hparse := Mode.parse_vi hparse
  rw [← hmode] at hparse
  have hpressed := pressed hparse
  generalize (e.press stroke).mode = mode, (e.press stroke).desk = desk at hpressed ⊢
  cases hpressed with
  | idle => exact ⟨after, rfl, hcalm⟩
  | goesOn applied =>
    obtain ⟨command, count, rfl, -⟩ := hplain _ rfl
    cases applied
    exact ⟨after, rfl, hcalm⟩
  | ends applied finished =>
    obtain ⟨command, count, rfl, hcommand⟩ := hplain _ rfl
    cases applied
    rw [Desk.event?_run] at finished
    rcases hcommand with rfl | rfl <;> cases finished

/-- **The first escape in the modal mode.**  Whatever it finds, after it no action has the focus. -/
theorem press_escape_vi (h : e.Steady) {m : Vi} (hmode : e.mode = .vi m)
    (hstroke : stroke.sequence = [escape]) :
    ∃ after : Vi, (e.press stroke).mode = .vi after ∧ after.focus.any Focus.isHeld = false := by
  cases hheld : m.focus.any Focus.isHeld with
  | true =>
    obtain ⟨f, hfocus, hf⟩ := (Option.any_eq_true _ _).mp hheld
    have hfocus : e.mode.focus? = some f := by
      rw [hmode]
      exact hfocus
    have hbound : e.mode.textCommand? stroke = some .viCommandMode := by
      rw [hmode]
      exact Mode.Usual.textCommand?_escape (hmode ▸ h.usual) hstroke
    obtain ⟨g, hg, hpress⟩ := press_of_held hfocus hf (.inr rfl) hbound
      (Stroke.printable?_escape hstroke)
    rw [hmode] at hpress
    exact ⟨{ m with focus := some g }, hpress, hg⟩
  | false =>
    obtain ⟨after, hafter, hcalm⟩ := press_escape_of_free h hmode hheld hstroke
    exact ⟨after, hafter, by rw [hcalm.focus]; rfl⟩

/-! ## The way out -/

/-- With the usual keys the plain mode waits for nothing: what has arrived has been cut. -/
theorem Waiting.pending_eq_nil (h : e.Waiting) {m : Emacs} (hmode : e.mode = .emacs m) :
    e.input.pending = [] := by
  have hnone := h.usual.escape_notMem_pending h.synced h.waits
  have htable : m.table = .ofBindings Emacs.defaults := (hmode ▸ h.usual).table_emacs
  cases hpending : e.input.pending with
  | nil => rfl
  | cons c rest =>
    have hwaits := KeyInput.pending_of_next?_eq_none
      (h.synced.trans (Mode.keys_eq_ofList h.usual.frozen)) h.waits
    rw [hpending] at hnone hwaits
    obtain ⟨⟨longer, hlonger, ⟨tail, htail⟩, hproper⟩, -⟩ :=
      hwaits.resolve_left (List.cons_ne_nil c rest)
    rw [hmode, Mode.active, htable] at hlonger
    have hhead : longer.sequence.head? ≠ some escape := by
      rw [← htail]
      intro hescape
      exact hnone (List.mem_cons.mpr (.inl (Option.some.inj hescape).symm))
    have hlength := Emacs.leads_usual.short longer.sequence
      (Emacs.defaults.map_sequence_strokes ▸ List.mem_map_of_mem hlonger) hhead
    rw [← htail, List.length_append, List.length_cons] at hlength
    obtain rfl : tail = [] := List.length_eq_zero_iff.mp (by omega)
    exact absurd ((List.append_nil _).symm.trans htail) hproper

/-- A key that gives the line up, with nothing in front of it. -/
theorem write_interrupt (h : e.Waiting) (hclear : e.decoder.Clear) (hpending : e.input.pending = [])
    (hparse : ∀ stroke : Stroke, stroke.sequence = [interruptCode] →
      ∃ mode count, e.mode.parse stroke = (mode, some (.plain .interrupt count))) :
    let after := e.write (e.decoder.charset.encode [interruptCode])
    after.2 = .ok [.interrupted] ∧ after.1.desk.buffer.text = [] ∧ after.1.mode.Initial := by
  intro after
  obtain ⟨stroke, decoder, input, hstroke, -, -, -, hwrite⟩ :=
    write_key h hclear hpending (substitute_interrupt _) h.usual.exists_interrupt_active
  obtain ⟨mode, count, hparse⟩ := hparse stroke hstroke
  have houtcome := interrupted_of_parse h.reliable hparse
  obtain ⟨htext, -, -, hinitial, -⟩ := line_begins houtcome rfl
  have hafter : after = ((e.press stroke).withSource decoder input, .ok [.interrupted]) := by
    change e.write _ = _
    rw [hwrite, houtcome]
    rfl
  rw [hafter]
  exact ⟨rfl, htext, hinitial⟩

/-- In the plain mode, whatever was written: the key that gives the line up, twice. -/
theorem write_interrupt_twice (he : e.Reached) (hclear : e.decoder.Clear)
    (hplain : e.mode.editingMode = .emacs) :
    let charset := e.decoder.charset
    let first := (e.write (charset.encode [interruptCode])).1
    let second := first.write (charset.encode [interruptCode])
    second.2 = .ok [.interrupted] ∧ second.1.desk.buffer.text = [] ∧ second.1.mode.Initial := by
  intro charset first second
  obtain ⟨m, hm⟩ := Mode.exists_emacs hplain
  obtain ⟨stroke, decoder, input, hstroke, hdecoder, hcharset, hinput, hwrite⟩ :=
    write_key he.waiting hclear (he.waiting.pending_eq_nil hm) (substitute_interrupt _)
      he.waiting.usual.exists_interrupt_active
  have hfirst : first = (e.press stroke).withSource decoder input := congrArg Prod.fst hwrite
  have hreached : first.Reached := .write _ he
  obtain ⟨after, hafter, hfree, hleader⟩ := press_interrupt_emacs he.steady hm hstroke
  have hmode : first.mode = .emacs after := by rw [hfirst]; exact hafter
  have hsame : first.decoder.charset = charset := by rw [hfirst]; exact hcharset
  have hparse : ∀ stroke : Stroke, stroke.sequence = [interruptCode] →
      ∃ mode count, first.mode.parse stroke = (mode, some (.plain .interrupt count)) := by
    intro stroke hstroke
    have htable : after.table = .ofBindings Emacs.defaults :=
      (hmode ▸ hreached.waiting.usual).table_emacs
    rw [hmode]
    exact ⟨_, _, Mode.parse_emacs (Emacs.parse_interrupt_of_idle htable hstroke hfree hleader)⟩
  have hsecond := write_interrupt hreached.waiting (by rw [hfirst]; exact hdecoder)
    (by rw [hfirst]; exact hinput) hparse
  rwa [hsame] at hsecond

/-- In the modal mode, whatever was written: an escape ends what has the focus, and another one
leads to command status. -/
theorem write_escape_twice (he : e.Reached) (hclear : e.decoder.Clear)
    (hmodal : e.mode.editingMode = .vi) :
    let charset := e.decoder.charset
    let first := (e.write (charset.encode [escape])).1
    let second := (first.write (charset.encode [escape])).1
    (∃ m : Vi, second.mode = .vi m ∧ m.Calm) ∧ second.input.pending = [] ∧
      second.decoder.Clear ∧ second.decoder.charset = charset := by
  intro charset first second
  obtain ⟨⟨before, last, hbefore, hpristine, hlast, hmode⟩, hnothing, hfirst, hsame⟩ :=
    write_escape he hclear
  have hsame : first.decoder.charset = charset := hsame
  have hreached : first.Reached := .write _ he
  obtain ⟨m, hm⟩ := Mode.exists_vi ((Mode.editingMode_of_pristine hpristine).trans hmodal)
  obtain ⟨free, hfree, hletsGo⟩ := press_escape_vi hbefore hm hlast
  -- the second escape arrives alone, and no action gets it
  obtain ⟨stroke, decoder, input, hstroke, hdecoder, hcharset, hinput, hwrite⟩ :=
    write_key (e := first) hreached.waiting hfirst hnothing (substitute_escape _)
      hreached.waiting.usual.exists_escape_active
  rw [hsame] at hwrite hcharset
  have hsecond : second = (first.press stroke).withSource decoder input := congrArg Prod.fst hwrite
  obtain ⟨calm, hpress, hcalm⟩ :=
    press_escape_of_free hreached.steady (hmode.trans hfree) hletsGo hstroke
  rw [hsecond]
  exact ⟨⟨calm, hpress, hcalm⟩, hinput, hdecoder, hcharset⟩

/-- **No state is a trap.**  Whatever was written to an editor with the usual keys, in the plain
mode the key that gives the line up does so when it is written for the second time.  In the modal
mode two escapes lead to command status, with no count, no action in focus and no input that waits,
and the key that gives the line up does so then.  The line is empty after that, and the mode as it
was at first.  A machine that checks its sums has to have come to no fault. -/
theorem interrupt_leads_out (he : e.Reached) (hclear : e.decoder.Clear) :
    let charset := e.decoder.charset
    (e.mode.editingMode = .emacs →
      let first := (e.write (charset.encode [interruptCode])).1
      let second := first.write (charset.encode [interruptCode])
      second.2 = .ok [.interrupted] ∧ second.1.desk.buffer.text = [] ∧ second.1.mode.Initial) ∧
    (e.mode.editingMode = .vi →
      let first := (e.write (charset.encode [escape])).1
      let second := (first.write (charset.encode [escape])).1
      let third := second.write (charset.encode [interruptCode])
      (∃ m : Vi, second.mode = .vi m ∧ m.Calm) ∧ second.input.pending = [] ∧
        third.2 = .ok [.interrupted] ∧ third.1.desk.buffer.text = [] ∧ third.1.mode.Initial) := by
  intro charset
  refine ⟨write_interrupt_twice he hclear, fun hmodal => ?_⟩
  intro first second third
  obtain ⟨⟨m, hmode, hcalm⟩, hpending, hdecoder, hcharset⟩ := write_escape_twice he hclear hmodal
  have hreached : second.Reached := .write _ (.write _ he)
  have hparse : ∀ stroke : Stroke, stroke.sequence = [interruptCode] →
      ∃ mode count, second.mode.parse stroke = (mode, some (.plain .interrupt count)) := by
    intro stroke hstroke
    have husual : (Mode.vi m).Usual := hmode ▸ hreached.waiting.usual
    obtain ⟨after, count, hparse⟩ := hcalm.parse_interrupt husual.table_vi hstroke
    exact ⟨.vi after, count, (congrArg (Mode.parse · stroke) hmode).trans (Mode.parse_vi hparse)⟩
  have hthird := write_interrupt (e := second) hreached.waiting hdecoder hpending hparse
  have hsame : second.decoder.charset = charset := hcharset
  rw [hsame] at hthird
  exact ⟨⟨m, hmode, hcalm⟩, hpending, hthird⟩

/-- Out of two states that swallow the first key: behind a leader the first interrupt is lost, and
in command status a search has the focus and a `g` waits for the key behind it. -/
theorem interrupt_leads_out_of_leader_and_search :
    let plain := ((new .default (.reliable .utf8)).write [0x61, 0x62, 0x1B]).1
    let modal := ((new { Config.default with editingMode := .vi } (.reliable .utf8)).write
      [0x61, 0x62, 0x1B, 0x2F, 0x67]).1
    let again := ((modal.write [0x1B]).1.write [0x1B]).1
    ((plain.write [0x03]).2.toOption = some [] ∧
      ((plain.write [0x03]).1.write [0x03]).2 = .ok [.interrupted] ∧
      ((plain.write [0x03]).1.write [0x03]).1.desk.buffer.text = []) ∧
    modal.mode.hasFocus = true ∧ modal.input.pending = ['g'] ∧
      (∃ m : Vi, again.mode = .vi m ∧ m.Calm) ∧ (again.write [0x03]).2 = .ok [.interrupted] ∧
        (again.write [0x03]).1.desk.buffer.text = [] := by
  intro plain modal again
  have hplain : plain.Reached := .write _ (.new _ fun _ => rfl)
  have hmodal : modal.Reached := .write _ (.new _ fun _ => rfl)
  have hbytes : Charset.utf8.encode [escape] = [0x1B] ∧
      Charset.utf8.encode [interruptCode] = [0x03] := by
    decide +kernel
  have hbehind : (plain.decoder.poisoned = false ∧ plain.decoder.pendingBytes = 0) ∧
      plain.decoder.charset = .utf8 ∧ plain.mode.editingMode = .emacs ∧
        (plain.write [0x03]).2.toOption = some [] := by
    decide +kernel
  have hsearch : (modal.decoder.poisoned = false ∧ modal.decoder.pendingBytes = 0) ∧
      modal.decoder.charset = .utf8 ∧ modal.mode.editingMode = .vi ∧
        modal.mode.hasFocus = true ∧ modal.input.pending = ['g'] := by
    decide +kernel
  obtain ⟨⟨hworks, hclear⟩, hcharset, hmode, hlost⟩ := hbehind
  obtain ⟨⟨hworks', hclear'⟩, hcharset', hmode', hfocus, hpending⟩ := hsearch
  have htwice := (interrupt_leads_out hplain ⟨hworks, hclear⟩).1 hmode
  have hescapes := (interrupt_leads_out hmodal ⟨hworks', hclear'⟩).2 hmode'
  dsimp only at htwice hescapes
  rw [hcharset, hbytes.2] at htwice
  rw [hcharset', hbytes.1, hbytes.2] at hescapes
  obtain ⟨hcalm, -, hthird, htext, -⟩ := hescapes
  exact ⟨⟨hlost, htwice.1, htwice.2.1⟩, hfocus, hpending, hcalm, hthird, htext⟩

end Editor

end PromptLine
