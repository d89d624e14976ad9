import PromptLine.Proofs.Mode.Counts

/-!
# Keys that mean nothing

Where no text is typed, a key without an entry leads to no action, but it is not without effect: the
counts are forgotten.  Status, bindings and the remembered change stay, so a pending operator goes
on waiting, for a motion that is then made once.

Whether this can be seen is a question about all that is asked afterwards.  Dispatchers with the
same `core` answer alike, so a key that forgets nothing might as well not have been typed.  Where a
count is pending, one more key tells: a zero continues a count and is a motion without one, and a
word under an operator is taken as often as the count before the operator says.
-/

namespace PromptLine

theorem Status.ne_of_takesText {s : Status} (h : s.takesText = false) :
    s ≠ .edit ∧ s ≠ .replace := by
  constructor <;> rintro rfl <;> cases h

/-! ## Actions that have let go of the focus -/

theorem Search.focused_lookOn (setting : Setting) (s : Search) (d : Desk) :
    (s.lookOn setting d).1.focused = s.focused := by
  have hlook : (s.look setting d.history).1.focused = s.focused := by
    rw [look]
    split
    · rfl
    · split <;> rfl
  exact hlook

theorem Search.focused_apply {s : Search} (h : s.focused = false) (setting : Setting) (d : Desk) :
    (s.apply setting d).1.focused = false := by
  rw [apply]
  split
  · exact h
  · rw [focused_lookOn, h]
  · rw [focused_lookOn, h]
  · dsimp only
    split
    · exact h
    · rw [focused_lookOn]
      exact h
  all_goals rfl

/-- An action that has let go of the focus does not take it again. -/
theorem Focus.isHeld_apply {f : Focus} (h : f.isHeld = false) (setting : Setting) (d : Desk) :
    (f.apply setting d).1.isHeld = false := by
  cases f with
  | quoted q =>
    rw [apply]
    dsimp only
    rw [QuotedInsert.apply]
    split
    · exact h
    · rfl
  | search s => exact Search.focused_apply h setting d

namespace Vi

variable {m n : Vi} {stroke : Stroke}

/-! ## Differences that no input shows -/

/-- The dispatcher with a count of one before an operator, where there is none. -/
def spelledOut (m : Vi) : Vi := { m with operatorCount := some (m.operatorCount.getD 1) }

/-- The dispatcher without what makes no difference to it: an action that has let go of the focus,
and whether the count before an operator was left out or was one. -/
def core (m : Vi) : Vi := { m.spelledOut with focus := m.focus.filter Focus.isHeld }

theorem core_core (m : Vi) : m.core.core = m.core := by
  have hfilter : (m.focus.filter Focus.isHeld).filter Focus.isHeld =
      m.focus.filter Focus.isHeld := by
    rw [Option.filter_filter]
    simp only [Bool.and_self]
  exact congrArg (fun focus => { m.core with focus := focus }) hfilter

theorem filter_isHeld (hfree : m.focus.any Focus.isHeld = false) :
    m.focus.filter Focus.isHeld = none := by
  cases hfocus : m.focus with
  | none => rfl
  | some f =>
    rw [hfocus, Option.any_some] at hfree
    rw [Option.filter_some, hfree]
    rfl

/-- Two dispatchers that answered a key answered it alike. -/
def Alike (first second : Vi × Option Action) : Prop :=
  first.1.core = second.1.core ∧ first.2 = second.2

theorem alike_follow (m : Vi) (entry : Entry) :
    Alike (m.spelledOut.follow entry) (m.follow entry) := by
  rw [follow, follow]
  cases entry.command.takesFocus with
  | true => exact ⟨rfl, rfl⟩
  | false =>
    by_cases hagain : entry.next = .again
    · rw [if_pos hagain, if_pos hagain]
      exact ⟨rfl, rfl⟩
    · rw [if_neg hagain, if_neg hagain]
      have hstatus : m.spelledOut.status = m.status := rfl
      rw [hstatus]
      cases entry.next.awaitsMotion && !m.status.awaitsMotion <;> exact ⟨rfl, rfl⟩

theorem alike_resolve (m : Vi) (stroke : Stroke) :
    Alike (m.spelledOut.resolve stroke) (m.resolve stroke) := by
  have hdigit : m.spelledOut.countDigit? stroke = m.countDigit? stroke := rfl
  have hstatus : m.spelledOut.status = m.status := rfl
  have htable : m.spelledOut.table = m.table := rfl
  rw [resolve, resolve, hdigit]
  cases m.countDigit? stroke with
  | some digit => exact ⟨rfl, rfl⟩
  | none =>
    dsimp only
    rw [hstatus, htable]
    split
    · exact ⟨rfl, rfl⟩
    · split
      · exact m.alike_follow _
      · rw [unbound, unbound, hstatus]
        split <;> exact ⟨rfl, rfl⟩

theorem alike_parse (m : Vi) (stroke : Stroke) : Alike (m.core.parse stroke) (m.parse stroke) := by
  cases hheld : m.focus.any Focus.isHeld with
  | false =>
    have hcore : m.core.focus.any Focus.isHeld = false := by
      rw [core, filter_isHeld hheld]
      rfl
    rw [parse_of_free hheld, parse_of_free hcore]
    exact alike_resolve { m with focus := none } stroke
  | true =>
    obtain ⟨f, hfocus, hf⟩ := (Option.any_eq_true _ _).mp hheld
    have hcore : m.core.focus = some f := by
      rw [core, hfocus, Option.filter_some, hf]
      rfl
    rw [parse_of_held hfocus hf, parse_of_held hcore hf]
    exact ⟨rfl, rfl⟩

/-- Applying an action that has let go of the focus is as good as having none. -/
theorem filter_map_apply (focus : Option Focus) (setting : Setting) (d : Desk) :
    ((focus.filter Focus.isHeld).map fun f => (f.apply setting d).1).filter Focus.isHeld =
      (focus.map fun f => (f.apply setting d).1).filter Focus.isHeld := by
  cases focus with
  | none => rfl
  | some f =>
    rw [Option.filter_some]
    cases hheld : f.isHeld with
    | true => rfl
    | false =>
      rw [if_neg Bool.false_ne_true, Option.map_some, Option.filter_some,
        Focus.isHeld_apply hheld]
      rfl

theorem alike_perform (m : Vi) (input : Input) :
    Alike (m.core.perform input) (m.perform input) := by
  cases input with
  | key stroke => exact m.alike_parse stroke
  | apply setting d =>
    exact ⟨congrArg (fun focus => { m.core with focus := focus })
      (filter_map_apply m.focus setting d), rfl⟩
  | bind sequence command =>
    rw [perform, perform, addCommand, addCommand]
    have htable : m.core.table = m.table := rfl
    rw [htable]
    cases m.table.bindSequence sequence [addedEntry command] with
    | error => exact ⟨m.core_core, rfl⟩
    | ok table =>
      exact ⟨congrArg (fun c => { c with table := table, insertTrie := insertTrieOf table })
        m.core_core, rfl⟩
  | reset => exact ⟨rfl, rfl⟩

/-- **Dispatchers with one core answer alike**, whatever is asked of them. -/
theorem answers_of_core (h : m.core = n.core) (inputs : List Input) :
    m.answers inputs = n.answers inputs := by
  induction inputs generalizing m n with
  | nil => rfl
  | cons input rest ih =>
    obtain ⟨hm, hanswer⟩ := m.alike_perform input
    obtain ⟨hn, hanswer'⟩ := n.alike_perform input
    rw [h] at hm hanswer
    rw [answers, answers, ← hanswer, hanswer', ih (hm.symm.trans hn)]

/-! ## Two keys that tell counts apart -/

/-- A key that completes a command is answered with the counts that are pending. -/
theorem answer_of_entry {entry : Entry} (hfree : m.focus.any Focus.isHeld = false)
    (hdigit : m.countDigit? stroke = none) (htext : m.status.takesText = false)
    (hentry : entryOf m.table.bindings m.status stroke.sequence = some entry)
    (hplain : entry.command.takesFocus = false) (honce : entry.next ≠ .again)
    (hcompletes : entry.next.awaitsMotion = false) :
    (m.parse stroke).2 =
      some (Action.ofCommand entry.command m.status.operation m.totalCount) := by
  have hreplace := (Status.ne_of_takesText htext).2
  rw [parse_of_free hfree, resolve_of_entry (m := { m with focus := none }) hdigit hreplace hentry,
    follow]
  dsimp only
  rw [hplain, if_neg Bool.false_ne_true, if_neg honce, hcompletes]
  rfl

/-- A status without text is command status, or waits for a motion. -/
theorem command_or_operator {status : Status} (h : status ∈ statuses)
    (htext : status.takesText = false) :
    status = .command ∨ ∃ op : Operator, op.status = status := by
  have hall : ∀ status ∈ statuses, status.takesText = false →
      status = .command ∨ ∃ op ∈ Operator.all, op.status = status := by
    decide
  rcases hall status h htext with hcommand | ⟨op, -, hop⟩
  · exact .inl hcommand
  · exact .inr ⟨op, hop⟩

/-- A zero continues a count, and is a motion without one. -/
theorem answer_zero_iff (hadapted : Adapted m.table.bindings) (hstatus : m.status ∈ statuses)
    (hfree : m.focus.any Focus.isHeld = false) (htext : m.status.takesText = false) :
    (m.parse (.ofChar '0')).2 = none ↔ m.count ≠ none := by
  have hall : ∀ status ∈ statuses, status.takesText = false →
      (entryOf defaults status ['0']).isSome = true ∧ ∀ entry ∈ entryOf defaults status ['0'],
        entry.command.takesFocus = false ∧ entry.next ≠ .again ∧
          entry.next.awaitsMotion = false := by
    simp only [entryOf_defaults]
    decide
  constructor
  · intro hsilent hnone
    obtain ⟨hbound, hmotion⟩ := hall m.status hstatus htext
    obtain ⟨entry, hentry⟩ := Option.isSome_iff_exists.mp hbound
    obtain ⟨hplain, honce, hcompletes⟩ := hmotion entry hentry
    have hentry := hadapted.entryOf_of_usual hentry (by decide)
    have hdigit : m.countDigit? (.ofChar '0') = none :=
      countDigit?_eq_none fun c hc _ => ⟨(List.cons.inj hc).1.symm, hnone⟩
    rw [answer_of_entry hfree hdigit htext hentry hplain honce hcompletes] at hsilent
    cases hsilent
  · intro hpending
    rw [parse_of_free hfree,
      resolve_digit (m := { m with focus := none }) htext rfl (by decide) fun _ => hpending]

/-- A word under an operator is asked for as often as the counts say. -/
theorem answer_word (hadapted : Adapted m.table.bindings)
    (hfree : m.focus.any Focus.isHeld = false) {op : Operator} (hop : op.status = m.status) :
    ∃ motion, (m.parse (.ofChar 'w')).2 =
      some (.range ⟨.viForwardWord, motion, m.status, max m.totalCount 1⟩) := by
  have hkey : (Key.char 'w', Command.viForwardWord) ∈ motionKeys := by decide
  have hentry : entryOf m.table.bindings m.status ['w'] =
      some ⟨.viForwardWord, op.status, op.next, .withOperator⟩ := by
    have hsequence : (Key.char 'w').sequence = ['w'] := rfl
    have hmotion := entryOf_motion op hkey
    rw [hsequence] at hmotion
    rw [← hop]
    exact hadapted.entryOf_of_usual hmotion (by decide)
  have hdigit : m.countDigit? (.ofChar 'w') = none := countDigit?_of_single rfl rfl
  have htext : m.status.takesText = false := hop ▸ op.takesText_status
  have honce : op.next ≠ .again := by cases op <;> decide
  have hanswer := answer_of_entry hfree hdigit htext hentry rfl honce op.awaitsMotion_next
  obtain ⟨motion, -, -, haction⟩ := command_of_motion op hkey
  rw [← hop, op.operation_status, haction] at hanswer
  exact ⟨motion, hop ▸ hanswer⟩

/-! ## Keys without an entry -/

/-- The dispatcher without its counts, and without an action that had the focus. -/
def stripped (m : Vi) : Vi := { m.forgetCounts with focus := none }

/-- A key without an entry forgets the counts, and does no more. -/
theorem parse_unbound (hfree : m.focus.any Focus.isHeld = false)
    (htext : m.status.takesText = false) (hdigit : m.countDigit? stroke = none)
    (hunbound : entryOf m.table.bindings m.status stroke.sequence = none) :
    m.parse stroke = (m.stripped, none) := by
  obtain ⟨hedit, hreplace⟩ := Status.ne_of_takesText htext
  have hdigit' : countDigit? { m with focus := none } stroke = none := hdigit
  rw [parse_of_free hfree, resolve, hdigit']
  dsimp only
  rw [if_neg hreplace, Keymap.get?, bind_get?_eq_entryOf, hunbound]
  exact if_neg hedit

theorem core_stripped (hfree : m.focus.any Focus.isHeld = false) :
    m.stripped.core = m.forgetCounts.core :=
  congrArg (fun focus => { m.forgetCounts.spelledOut with focus := focus })
    (filter_isHeld hfree).symm

/-- Without a count there is nothing to forget. -/
theorem core_forgetCounts (hcount : m.count = none) (hoperator : m.operatorCount.getD 1 = 1) :
    m.forgetCounts.core = m.core := by
  unfold core spelledOut forgetCounts
  simp only [hcount, hoperator]
  rfl

section Told

variable {t : Tally} (h : t.Sound) (hfree : t.mode.focus.any Focus.isHeld = false)
  (htext : t.mode.status.takesText = false)

include h hfree htext

/-- A zero tells whether a count was forgotten. -/
theorem count_eq_none_of_answers
    (hsame : (t.mode.stripped.parse (.ofChar '0')).2 = (t.mode.parse (.ofChar '0')).2) :
    t.mode.count = none := by
  by_contra hpending
  have hcontinues := (answer_zero_iff h.adapted h.status hfree htext).mpr hpending
  have hmoves : (t.mode.stripped.parse (.ofChar '0')).2 = none ↔ (none : Option Nat) ≠ none :=
    answer_zero_iff (m := t.mode.stripped) h.adapted h.status rfl htext
  exact hmoves.mp (hsame.trans hcontinues) rfl

/-- A word tells whether a count before an operator was forgotten. -/
theorem operatorCount_of_answers (hcount : t.mode.count = none)
    (hsame : (t.mode.stripped.parse (.ofChar 'w')).2 = (t.mode.parse (.ofChar 'w')).2) :
    t.mode.operatorCount.getD 1 = 1 := by
  by_contra hne
  have hawaits := h.operator fun hoperator => hne (by rw [hoperator]; rfl)
  rcases command_or_operator h.status htext with hcommand | ⟨op, hop⟩
  · rw [hcommand] at hawaits
    cases hawaits
  · obtain ⟨motion, hword⟩ := answer_word h.adapted hfree hop
    obtain ⟨motion', hword'⟩ := answer_word (m := t.mode.stripped) h.adapted rfl hop
    have hanswer := hword'.symm.trans (hsame.trans hword)
    have hcounts : max (1 * 1) 1 = max (t.mode.operatorCount.getD 1 * t.mode.count.getD 1) 1 :=
      congrArg RangeAction.count (Action.range.inj (Option.some.inj hanswer))
    have hpositive := h.operatorCount.getD_bounds.1
    rw [hcount, Option.getD_none] at hcounts
    omega

end Told

theorem Reached.exists_sound (h : m.Reached) : ∃ t : Tally, t.Sound ∧ t.mode = m := by
  obtain ⟨report, inputs, rfl⟩ := h
  exact ⟨_, (Tally.sound_start report).performAll inputs,
    (Tally.start report).mode_performAll inputs⟩

/-- **A key without an entry does nothing exactly if no count is pending.**  It leads to no action,
and of all that a dispatcher holds it takes the counts only; so whatever is asked next is answered
as without the counts.  A count before an operator that is one cannot be told from none. -/
theorem unbound_does_nothing_iff (hreached : m.Reached) (hfree : m.focus.any Focus.isHeld = false)
    (htext : m.status.takesText = false) (hdigit : m.countDigit? stroke = none)
    (hunbound : entryOf m.table.bindings m.status stroke.sequence = none) :
    m.parse stroke = ({ m.forgetCounts with focus := none }, none) ∧
      (∀ inputs, (m.parse stroke).1.answers inputs = m.forgetCounts.answers inputs) ∧
      ((∀ inputs, (m.parse stroke).1.answers inputs = m.answers inputs) ↔
        m.count = none ∧ m.operatorCount.getD 1 = 1) := by
  obtain ⟨t, hsound, rfl⟩ := hreached.exists_sound
  have hforgets := answers_of_core (core_stripped hfree)
  rw [parse_unbound hfree htext hdigit hunbound]
  refine ⟨rfl, hforgets, fun hsame => ?_, ?_⟩
  · have hzero := (List.cons.inj (hsame [.key (.ofChar '0')])).1
    have hword := (List.cons.inj (hsame [.key (.ofChar 'w')])).1
    have hcount := count_eq_none_of_answers hsound hfree htext hzero
    exact ⟨hcount, operatorCount_of_answers hsound hfree htext hcount hword⟩
  · rintro ⟨hcount, hoperator⟩ inputs
    exact (hforgets inputs).trans (answers_of_core (core_forgetCounts hcount hoperator) inputs)

/-- An operator without a count waits on as if `z` had not been typed. -/
theorem unbound_does_nothing_after_operator :
    let m := (start .ansi).performAll [.key (.ofKey .escape), .key (.ofChar 'd')]
    m.Reached ∧ m.status = .delete ∧
      ∀ inputs, (m.parse (.ofChar 'z')).1.answers inputs = m.answers inputs := by
  intro m
  have hstate : m.focus.any Focus.isHeld = false ∧ m.status = .delete ∧
      m.countDigit? (.ofChar 'z') = none ∧ entryOf m.table.bindings m.status ['z'] = none ∧
      m.count = none ∧ m.operatorCount.getD 1 = 1 := by
    decide +kernel +revert
  obtain ⟨hfree, hstatus, hdigit, hunbound, hcounts⟩ := hstate
  have hreached : m.Reached := ⟨.ansi, _, rfl⟩
  have htext : m.status.takesText = false := by rw [hstatus]; rfl
  have hnothing := unbound_does_nothing_iff hreached hfree htext hdigit hunbound
  exact ⟨hreached, hstatus, hnothing.2.2.mpr hcounts⟩

/-- With a count it does not: after `2dzw` one word is deleted, and after `2dw` two are. -/
theorem unbound_takes_count :
    let m := (start .ansi).performAll
      [.key (.ofKey .escape), .key (.ofChar '2'), .key (.ofChar 'd')]
    let after := (m.parse (.ofChar 'z')).1
    m.Reached ∧ m.focus = none ∧ m.status = .delete ∧ m.countDigit? (.ofChar 'z') = none ∧
      entryOf m.table.bindings m.status ['z'] = none ∧
      m.operatorCount = some 2 ∧ after.operatorCount = none ∧
      m.answers [.key (.ofChar 'w')] =
        [some (.range ⟨.viForwardWord, .nextWord false, .delete, 2⟩)] ∧
      after.answers [.key (.ofChar 'w')] =
        [some (.range ⟨.viForwardWord, .nextWord false, .delete, 1⟩)] :=
  ⟨⟨.ansi, _, rfl⟩, by decide +kernel⟩

end Vi

end PromptLine
