import PromptLine.Proofs.Mode.ViInputs

/-!
# Counts of the modal dispatcher

A count is pending where digits were typed and nothing was made of them yet.  The dispatcher keeps
only a number, capped at every digit, so the digits are kept beside it: a `Tally` is a dispatcher
with the digits behind its two counts.  `Tally.Sound` is the invariant.  Each count is the number
that its digits make, capped once; none is pending where text is typed or an action has the focus;
and the count before an operator lasts no longer than the operator waits.

A key either extends the count, or hands it to an operator, or forgets both counts, and the three
cases are proved apart.  All other inputs leave the counts alone.
-/

namespace PromptLine

/-- How often an action asks for something, if it counts. -/
def Action.count? : Action → Option Nat
  | plain _ count => some count
  | range r => some r.count
  | _ => none

/-- The action asks for something at least once, and no oftener than two counts can. -/
def Action.Moderate (action : Action) : Prop :=
  ∀ count, action.count? = some count → 1 ≤ count ∧ count ≤ Vi.countLimit * Vi.countLimit

namespace Vi

/-! ## One count -/

/-- A count is pending exactly if digits are, and is the number that they make. -/
structure Counts (count : Option Nat) (digits : Text) : Prop where
  isCount : IsCount digits
  eq : count = countOf? digits

namespace Counts

variable {count : Option Nat} {digits : Text}

theorem of_none (hcount : count = none) (hdigits : digits = []) : Counts count digits := by
  rw [hcount, hdigits]
  exact ⟨⟨fun _ hc => absurd hc List.not_mem_nil, (Option.some_ne_none _).symm⟩, rfl⟩

theorem digits_eq_nil (h : Counts count digits) (hcount : count = none) : digits = [] := by
  by_contra hne
  have heq := h.eq
  rw [hcount, countOf?, if_neg hne] at heq
  cases heq

theorem bounds {number : Nat} (h : Counts (some number) digits) :
    1 ≤ number ∧ number ≤ countLimit := by
  have heq := h.eq
  have hpositive := one_le_countOf h.isCount
  rw [countOf, ← heq, Option.getD_some] at hpositive
  refine ⟨hpositive, ?_⟩
  rw [countOf?] at heq
  split at heq
  · cases heq
  · cases heq
    exact Nat.min_le_right _ _

theorem getD_bounds (h : Counts count digits) : 1 ≤ count.getD 1 ∧ count.getD 1 ≤ countLimit := by
  cases count with
  | none => decide
  | some number => exact h.bounds

theorem getD_zero_le (h : Counts count digits) : count.getD 0 ≤ countLimit := by
  cases count with
  | none => exact Nat.zero_le _
  | some number => exact h.bounds.2

/-- A digit extends a count.  A zero does not begin one. -/
theorem extend (h : Counts count digits) {c : Char} (hdigit : c.isDigit = true)
    (hzero : ¬(c = '0' ∧ count = none)) : Counts (extendCount count c) (digits ++ [c]) := by
  obtain ⟨⟨hdigits, hleads⟩, rfl⟩ := h
  refine ⟨⟨fun d hd => ?_, ?_⟩, ?_⟩
  · rcases List.mem_append.mp hd with hbefore | hlast
    · exact hdigits d hbefore
    · rw [List.mem_singleton.mp hlast]
      exact hdigit
  · cases digits with
    | nil => exact fun h => hzero ⟨Option.some.inj h, rfl⟩
    | cons d rest => exact hleads
  · rw [← foldl_extendCount_none, ← foldl_extendCount_none, List.foldl_append]
    rfl

end Counts

/-- The product of two counts is a moderate one. -/
theorem totalCount_bounds {m : Vi} {digits operatorDigits : Text} (hcount : Counts m.count digits)
    (hoperator : Counts m.operatorCount operatorDigits) :
    1 ≤ m.totalCount ∧ m.totalCount ≤ countLimit * countLimit := by
  obtain ⟨hone, hlimit⟩ := hcount.getD_bounds
  obtain ⟨hone', hlimit'⟩ := hoperator.getD_bounds
  rw [totalCount]
  exact ⟨Nat.mul_pos hone' hone, Nat.mul_le_mul hlimit' hlimit⟩

theorem moderate_of_uncounted {action : Action} (h : action.count? = none) : action.Moderate := by
  intro count hcount
  rw [h] at hcount
  cases hcount

/-- Where there is no action there is no immoderate one. -/
theorem moderate_of_none (action : Action) (h : none = some action) : action.Moderate :=
  absurd h (Option.some_ne_none action).symm

theorem moderate_ofCommand (command : Command) (operation : Status) {count : Nat}
    (h : count ≤ countLimit * countLimit) :
    (Action.ofCommand command operation count).Moderate := by
  have hbounds : 1 ≤ max count 1 ∧ max count 1 ≤ countLimit * countLimit :=
    ⟨Nat.le_max_right _ _, Nat.max_le.mpr ⟨h, by decide⟩⟩
  intro number hnumber
  rw [Action.ofCommand] at hnumber
  dsimp only at hnumber
  split at hnumber
  · cases hnumber
  · split at hnumber <;> cases hnumber <;> exact hbounds

theorem moderate_ofStroke {stroke : Stroke} {action : Action}
    (h : Action.ofStroke? stroke = some action) : action.Moderate := by
  rw [Action.ofStroke?] at h
  split at h
  · cases h
    exact moderate_of_uncounted rfl
  · split at h
    · cases h
      exact moderate_of_uncounted rfl
    · cases h

/-- What it takes to be a digit of a count. -/
theorem countDigit?_eq_some {m : Vi} {stroke : Stroke} {digit : Nat}
    (h : m.countDigit? stroke = some digit) :
    m.status.takesText = false ∧ ∃ c, stroke.sequence = [c] ∧ c.isDigit = true ∧
      ¬(c = '0' ∧ m.count = none) ∧ digit = c.toNat - 48 := by
  rw [countDigit?] at h
  split at h
  · cases h
  · next htext =>
    split at h
    · cases h
    · next c hsingle =>
      split at h
      · next hcounts =>
        cases h
        exact ⟨Bool.eq_false_iff.mpr htext, c, Stroke.single?_eq_some.mp hsingle, hcounts.1,
          hcounts.2, rfl⟩
      · cases h

/-! ## The digits behind the counts -/

/-- A dispatcher with the digits behind its counts. -/
structure Tally where
  mode : Vi
  /-- What was typed since the count was begun. -/
  digits : Text
  /-- What was typed for the count that the operator keeps. -/
  operatorDigits : Text

/-- What an input types. -/
def Input.typed : Input → Text
  | key stroke => stroke.sequence
  | _ => []

namespace Tally

/-- Goes on with a dispatcher after something was typed.  The digits of a count go with it to the
operator. -/
def advance (t : Tally) (after : Vi) (typed : Text) : Tally where
  mode := after
  digits := if after.count = none then [] else t.digits ++ typed
  operatorDigits :=
    if after.operatorCount = none then []
    else if t.mode.operatorCount = none then t.digits
    else t.operatorDigits

/-- Does what is asked. -/
def perform (t : Tally) (input : Input) : Tally :=
  t.advance (t.mode.perform input).1 input.typed

/-- Does all that is asked. -/
def performAll (t : Tally) (inputs : List Input) : Tally := inputs.foldl perform t

/-- The dispatcher for a device, with no digits typed. -/
def start (report : DeviceReport) : Tally := ⟨.start report, [], []⟩

/-- The digits do not change what the dispatcher does. -/
theorem mode_performAll (t : Tally) (inputs : List Input) :
    (t.performAll inputs).mode = t.mode.performAll inputs := by
  induction inputs generalizing t with
  | nil => rfl
  | cons input rest ih => exact ih (t.perform input)

/-- The invariant of a dispatcher and the digits behind its counts. -/
structure Sound (t : Tally) : Prop where
  adapted : Adapted t.mode.table.bindings
  status : t.mode.status ∈ statuses
  count : Counts t.mode.count t.digits
  operatorCount : Counts t.mode.operatorCount t.operatorDigits
  text : t.mode.status.takesText = true → t.mode.count = none ∧ t.mode.operatorCount = none
  operator : t.mode.operatorCount ≠ none → t.mode.status.awaitsMotion = true
  focus : t.mode.focus ≠ none → t.mode.count = none ∧ t.mode.operatorCount = none
  lastChange : ∀ action, t.mode.lastChange = some action → action.Moderate

theorem sound_start (report : DeviceReport) : (start report).Sound where
  adapted := Adapted.remap report
  status := List.mem_cons_self
  count := .of_none rfl rfl
  operatorCount := .of_none rfl rfl
  text := fun _ => ⟨rfl, rfl⟩
  operator := fun h => absurd rfl h
  focus := fun _ => ⟨rfl, rfl⟩
  lastChange := fun _ h => absurd h (Option.some_ne_none _).symm

namespace Sound

variable {t : Tally} {after : Vi} {stroke : Stroke} {action? : Option Action}

/-- A dispatcher that has forgotten its counts. -/
theorem forgets (typed : Text) (hadapted : Adapted after.table.bindings)
    (hstatus : after.status ∈ statuses) (hcount : after.count = none)
    (hoperator : after.operatorCount = none)
    (hlast : ∀ action, after.lastChange = some action → action.Moderate) :
    (t.advance after typed).Sound where
  adapted := hadapted
  status := hstatus
  count := .of_none hcount (if_pos hcount)
  operatorCount := .of_none hoperator (if_pos hoperator)
  text := fun _ => ⟨hcount, hoperator⟩
  operator := fun h => absurd hoperator h
  focus := fun _ => ⟨hcount, hoperator⟩
  lastChange := hlast

/-- The digits before an operator are kept as long as its count is. -/
theorem operatorDigits_eq (h : t.Sound) (typed : Text)
    (hoperator : after.operatorCount = t.mode.operatorCount) :
    (t.advance after typed).operatorDigits = t.operatorDigits := by
  rw [advance]
  dsimp only
  rw [hoperator]
  split
  · next hnone => exact (h.operatorCount.digits_eq_nil hnone).symm
  · rfl

/-- An input that types nothing and leaves the counts alone. -/
theorem keeps (h : t.Sound) (hadapted : Adapted after.table.bindings)
    (hstatus : after.status = t.mode.status) (hcount : after.count = t.mode.count)
    (hoperator : after.operatorCount = t.mode.operatorCount)
    (hfocus : after.focus ≠ none → t.mode.focus ≠ none)
    (hlast : after.lastChange = t.mode.lastChange) : (t.advance after []).Sound := by
  have hdigits : (t.advance after []).digits = t.digits := by
    rw [advance]
    dsimp only
    rw [hcount]
    split
    · next hnone => exact (h.count.digits_eq_nil hnone).symm
    · exact List.append_nil _
  have hoperatorDigits := h.operatorDigits_eq [] hoperator
  exact
    { adapted := hadapted
      status := hstatus ▸ h.status
      count := hdigits ▸ hcount ▸ h.count
      operatorCount := hoperatorDigits ▸ hoperator ▸ h.operatorCount
      text := fun htext =>
        have hnone := h.text (hstatus ▸ htext)
        ⟨hcount.trans hnone.1, hoperator.trans hnone.2⟩
      operator := fun hne => hstatus ▸ h.operator (hoperator ▸ hne)
      focus := fun hf =>
        have hnone := h.focus (hfocus hf)
        ⟨hcount.trans hnone.1, hoperator.trans hnone.2⟩
      lastChange := fun action haction => h.lastChange action (hlast ▸ haction) }

/-- A digit of a count. -/
theorem counted (h : t.Sound) (hfocus : t.mode.focus = none) {digit : Nat}
    (hdigit : t.mode.countDigit? stroke = some digit) :
    (t.advance (t.mode.pushDigit digit) stroke.sequence).Sound := by
  obtain ⟨htext, c, hsequence, hisDigit, hzero, rfl⟩ := countDigit?_eq_some hdigit
  have hoperatorDigits :
      (t.advance (t.mode.pushDigit (c.toNat - 48)) stroke.sequence).operatorDigits =
        t.operatorDigits := h.operatorDigits_eq stroke.sequence rfl
  exact
    { adapted := h.adapted
      status := h.status
      count := by
        rw [hsequence]
        exact h.count.extend hisDigit hzero
      operatorCount := hoperatorDigits ▸ h.operatorCount
      text := fun htaken => absurd (htaken.symm.trans htext) Bool.noConfusion
      operator := h.operator
      focus := fun hne => absurd hfocus hne
      lastChange := h.lastChange }

/-- An operator takes the count. -/
theorem begins (h : t.Sound) (typed : Text) (hadapted : Adapted after.table.bindings)
    (hstatus : after.status ∈ statuses) (hfree : t.mode.status.awaitsMotion = false)
    (hawaits : after.status.awaitsMotion = true) (hcount : after.count = none)
    (hoperator : after.operatorCount = t.mode.count) (hfocus : after.focus = none)
    (hlast : ∀ action, after.lastChange = some action → action.Moderate) :
    (t.advance after typed).Sound := by
  have hnone : t.mode.operatorCount = none := by
    by_contra hne
    rw [h.operator hne] at hfree
    cases hfree
  have htext : after.status.takesText = false := by
    generalize after.status = next at hawaits ⊢
    cases next <;> first | rfl | cases hawaits
  have hdigits : (t.advance after typed).operatorDigits = t.digits := by
    rw [advance]
    dsimp only
    rw [hoperator, if_pos hnone]
    split
    · next hempty => exact (h.count.digits_eq_nil hempty).symm
    · rfl
  exact
    { adapted := hadapted
      status := hstatus
      count := .of_none hcount (if_pos hcount)
      operatorCount := hdigits ▸ hoperator ▸ h.count
      text := fun htaken => absurd (htaken.symm.trans htext) Bool.noConfusion
      operator := fun _ => hawaits
      focus := fun hne => absurd hfocus hne
      lastChange := hlast }

/-! ### Every key -/

theorem followed (h : t.Sound) (hfocus : t.mode.focus = none) {entry : Entry}
    (hentry : entryOf t.mode.table.bindings t.mode.status stroke.sequence = some entry)
    (hfollows : Followed t.mode entry after action?) :
    (t.advance after stroke.sequence).Sound ∧
      ∀ action, action? = some action → action.Moderate := by
  cases hfollows with
  | focused =>
    exact ⟨forgets _ h.adapted h.status rfl rfl h.lastChange,
      fun _ haction => Option.some.inj haction ▸ moderate_of_uncounted rfl⟩
  | repeated => exact ⟨forgets _ h.adapted h.status rfl rfl h.lastChange, h.lastChange⟩
  | @acted counted action count plain makes counts once =>
    have hnext := h.adapted.next_mem hentry once
    have hcount : count ≤ countLimit * countLimit := by
      rcases counts with ⟨-, rfl, -⟩ | ⟨-, rfl, -⟩
      · decide
      · exact (totalCount_bounds h.count h.operatorCount).2
    have hmoderate : action.Moderate := makes ▸ moderate_ofCommand _ _ hcount
    have hlast : ∀ other, (if entry.isRecorded t.mode.status = true then some action
        else t.mode.lastChange) = some other → other.Moderate := by
      intro other hother
      split at hother
      · cases hother
        exact hmoderate
      · exact h.lastChange other hother
    refine ⟨?_, fun other hother => Option.some.inj hother ▸ hmoderate⟩
    rcases counts with ⟨hbegins, -, rfl⟩ | ⟨-, -, rfl⟩
    · obtain ⟨hawaits, hfree⟩ := Bool.and_eq_true_iff.mp hbegins
      exact h.begins _ h.adapted hnext (Bool.eq_false_of_not_eq_true' hfree) hawaits rfl rfl
        hfocus hlast
    · exact forgets _ h.adapted hnext rfl rfl hlast

theorem resolved (h : t.Sound) (hfocus : t.mode.focus = none)
    (hresolved : Resolved t.mode stroke after action?) :
    (t.advance after stroke.sequence).Sound ∧
      ∀ action, action? = some action → action.Moderate := by
  have hcommand : Status.command ∈ statuses := by decide
  cases hresolved with
  | counted digit? => exact ⟨h.counted hfocus digit?, moderate_of_none⟩
  | @replaced c =>
    have hlast : ∀ action, some (Action.replaceChar c) = some action → action.Moderate :=
      fun _ haction => Option.some.inj haction ▸ moderate_of_uncounted rfl
    exact ⟨forgets _ h.adapted hcommand rfl rfl hlast, hlast⟩
  | refused => exact ⟨forgets _ h.adapted hcommand rfl rfl h.lastChange, moderate_of_none⟩
  | bound _ _ found follows => exact h.followed hfocus found follows
  | typed status =>
    obtain ⟨hcount, hoperator⟩ := h.text (status ▸ rfl)
    exact ⟨forgets _ h.adapted h.status hcount hoperator h.lastChange,
      fun action haction => moderate_ofStroke haction⟩
  | lost => exact ⟨forgets _ h.adapted h.status rfl rfl h.lastChange, moderate_of_none⟩

/-- Taking the focus away changes no count. -/
theorem released (h : t.Sound) : Sound { t with mode := { t.mode with focus := none } } :=
  { h with focus := fun hne => absurd rfl hne }

theorem parsed (h : t.Sound) (hparsed : Parsed t.mode stroke after action?) :
    (t.advance after stroke.sequence).Sound ∧
      ∀ action, action? = some action → action.Moderate := by
  cases hparsed with
  | routed focus held =>
    obtain ⟨hcount, hoperator⟩ := h.focus (by rw [focus]; exact Option.some_ne_none _)
    exact ⟨forgets _ h.adapted h.status hcount hoperator h.lastChange,
      fun _ haction => Option.some.inj haction ▸ moderate_of_uncounted rfl⟩
  | resolved _ resolves => exact h.released.resolved rfl resolves

/-! ### Every input -/

/-- **An input keeps a tally sound**, and the action that it leads to is moderate. -/
theorem perform (h : t.Sound) (input : Input) :
    (t.perform input).Sound ∧
      ∀ action, (t.mode.perform input).2 = some action → action.Moderate := by
  have hadapted := adapted_perform h.adapted input
  cases input with
  | key stroke => exact h.parsed (t.mode.parsed stroke)
  | apply setting d =>
    refine ⟨h.keeps hadapted rfl rfl rfl ?_ rfl, moderate_of_none⟩
    intro hafter hnone
    have hmap : t.mode.focus.map (fun f => (f.apply setting d).1) = none := by
      rw [hnone]
      rfl
    exact hafter hmap
  | bind sequence command =>
    obtain ⟨table, trie, hbind⟩ := t.mode.perform_bind sequence command
    rw [Tally.perform, hbind]
    rw [hbind] at hadapted
    exact ⟨h.keeps hadapted rfl rfl rfl id rfl, moderate_of_none⟩
  | reset =>
    exact ⟨forgets _ hadapted List.mem_cons_self rfl rfl h.lastChange, moderate_of_none⟩

theorem performAll (h : t.Sound) (inputs : List Input) : (t.performAll inputs).Sound := by
  induction inputs generalizing t with
  | nil => exact h
  | cons input rest ih => exact ih (h.perform input).1

end Sound

end Tally

/-- **Counts are what was typed.**  Let a dispatcher be built for any device and asked anything in
any order.  It is in one of eight statuses.  Its counts are what their digits make, capped at the
limit, and at least one.  None is pending where text is typed, and the one before an operator lasts
no longer than the operator waits.  So every action asks for something at least once, and no oftener
than the largest counts do together, and all numbers on the way there fit into a machine word. -/
theorem counts_of_digits (report : DeviceReport) (inputs : List Input) :
    let m := (start report).performAll inputs
    let t := (Tally.start report).performAll inputs
    t.mode = m ∧ m.status ∈ statuses ∧
      (m.status.takesText = true → m.count = none ∧ m.operatorCount = none) ∧
      (m.operatorCount ≠ none → m.status.awaitsMotion = true) ∧
      Counts m.count t.digits ∧ Counts m.operatorCount t.operatorDigits ∧
      (∀ count, m.count = some count ∨ m.operatorCount = some count →
        1 ≤ count ∧ count ≤ countLimit) ∧
      (∀ stroke digit, m.countDigit? stroke = some digit →
        m.count.getD 0 * 10 + digit < UInt32.size) ∧
      m.totalCount < UInt32.size ∧
      ∀ input action, (m.perform input).2 = some action → action.Moderate := by
  intro m t
  have hmode : t.mode = m := (Tally.start report).mode_performAll inputs
  have hsound : t.Sound := (Tally.sound_start report).performAll inputs
  have hcount := hsound.count
  have hoperatorCount := hsound.operatorCount
  rw [← hmode]
  refine ⟨rfl, hsound.status, hsound.text, hsound.operator, hcount, hoperatorCount, ?_, ?_, ?_,
    fun input => (hsound.perform input).2⟩
  · rintro count (hpending | hpending)
    · rw [hpending] at hcount
      exact hcount.bounds
    · rw [hpending] at hoperatorCount
      exact hoperatorCount.bounds
  · intro stroke digit hdigit
    obtain ⟨-, c, -, hisDigit, -, rfl⟩ := countDigit?_eq_some hdigit
    have hnine : c.toNat ≤ 57 := (Char.isDigit_iff_toNat.mp hisDigit).2
    have hlimit := hcount.getD_zero_le
    rw [countLimit] at hlimit
    rw [UInt32.size]
    omega
  · exact (totalCount_bounds hcount hoperatorCount).2.trans_lt (by decide)

end Vi

end PromptLine
