import PromptLine.Proofs.Mode.ViKeys

/-!
# Operators, counts and motions

What a key means in command status is looked up by its sequence.  With the usual bindings the keys
of an operator and of every motion have the entries that are stated here, so that the table need not
be opened again.

Digits make a count.  The count saturates at each digit, which comes to the same as reading the
whole number and capping it once.
-/

namespace PromptLine

namespace Vi

/-! ## Operators -/

/-- The keys that wait for a motion. -/
inductive Operator
  | delete
  | change
  | yank
  | upCase
  | downCase
  deriving DecidableEq, Repr

namespace Operator

/-- Every operator. -/
def all : List Operator := [delete, change, yank, upCase, downCase]

/-- The status in which the motion is typed. -/
def status : Operator → Status
  | delete => .delete
  | change => .change
  | yank => .yank
  | upCase => .upCase
  | downCase => .downCase

/-- The status after the motion. -/
def next : Operator → Status
  | change => .edit
  | _ => .command

/-- What is typed. -/
def sequence : Operator → Text
  | delete => ['d']
  | change => ['c']
  | yank => ['y']
  | upCase => ['g', 'U']
  | downCase => ['g', 'u']

/-- The command that the key is bound to. -/
def command : Operator → Command
  | delete => .viDeleteOperator
  | change => .viChangeOperator
  | yank => .viYankOperator
  | upCase => .viUpCaseOperator
  | downCase => .viDownCaseOperator

/-- The key that makes an operator work on the whole line: the last one of the operator, typed
again. -/
def again : Operator → Char
  | delete => 'd'
  | change => 'c'
  | yank => 'y'
  | upCase => 'U'
  | downCase => 'u'

theorem mem_all (op : Operator) : op ∈ all := by cases op <;> decide

@[simp] theorem takesText_status (op : Operator) : op.status.takesText = false := by
  cases op <;> rfl

theorem status_ne_replace (op : Operator) : op.status ≠ .replace := by
  cases op <;> decide

theorem next_ne_again (op : Operator) : op.next ≠ .again := by cases op <;> decide

@[simp] theorem awaitsMotion_next (op : Operator) : op.next.awaitsMotion = false := by
  cases op <;> rfl

@[simp] theorem operation_status (op : Operator) : op.status.operation = op.status := by
  cases op <;> rfl

end Operator

/-! ## Entries of the usual bindings -/

/-- The keys that are bound as motions, with their commands. -/
def motionKeys : List (Key × Command) := motions ++ cursorKeys

/-- An operator's key waits for a motion. -/
theorem entryOf_operator (op : Operator) :
    entryOf defaults .command op.sequence = some ⟨op.command, .command, op.status, .never⟩ := by
  have h : ∀ op ∈ Operator.all,
      entryOf defaults .command op.sequence = some ⟨op.command, .command, op.status, .never⟩ := by
    simp only [entryOf_defaults]
    decide
  exact h op op.mem_all

/-- A motion's key completes the operator that waits. -/
theorem entryOf_motion (op : Operator) {key : Key} {command : Command}
    (h : (key, command) ∈ motionKeys) :
    entryOf defaults op.status key.sequence =
      some ⟨command, op.status, op.next, .withOperator⟩ := by
  have hall : ∀ op ∈ Operator.all, ∀ binding ∈ motionKeys,
      entryOf defaults op.status binding.1.sequence =
        some ⟨binding.2, op.status, op.next, .withOperator⟩ := by
    simp only [entryOf_defaults]
    decide
  exact hall op op.mem_all (key, command) h

/-- An operator's key typed again stands for the whole line. -/
theorem entryOf_again (op : Operator) :
    entryOf defaults op.status [op.again] =
      some ⟨.viWholeLine, op.status, op.next, .withOperator⟩ := by
  have h : ∀ op ∈ Operator.all,
      entryOf defaults op.status [op.again] =
        some ⟨.viWholeLine, op.status, op.next, .withOperator⟩ := by
    simp only [entryOf_defaults]
    decide
  exact h op op.mem_all

/-- The command of a motion's key is made of a motion, and takes the operation that waits. -/
theorem command_of_motion (op : Operator) {key : Key} {command : Command}
    (h : (key, command) ∈ motionKeys) :
    ∃ motion, command.motionFor? op.status = some motion ∧ motion ≠ .wholeLine ∧
      ∀ count, Action.ofCommand command op.status count =
        .range ⟨command, motion, op.status, max count 1⟩ := by
  have hall : ∀ op ∈ Operator.all, ∀ binding ∈ motionKeys,
      Focus.ofCommand? binding.2 = none ∧ binding.2.ownOperation? = none ∧
        (binding.2.motionFor? op.status).isSome = true ∧
          binding.2.motionFor? op.status ≠ some .wholeLine := by
    decide
  obtain ⟨hfocus, hown, hmotion, hpart⟩ := hall op op.mem_all _ h
  obtain ⟨motion, hmotion⟩ := Option.isSome_iff_exists.mp hmotion
  refine ⟨motion, hmotion, fun hwhole => hpart (hwhole ▸ hmotion), fun count => ?_⟩
  rw [Action.ofCommand]
  dsimp only
  rw [hfocus]
  dsimp only
  rw [hown, Option.getD_none, hmotion]

/-- No operator and no motion but `0` can be taken for a count. -/
theorem Operator.not_digit (op : Operator) {c : Char} (h : op.sequence = [c]) :
    c.isDigit = false := by
  cases op <;> cases h <;> rfl

theorem zero_of_digit_motion {key : Key} {command : Command} (h : (key, command) ∈ motionKeys)
    {c : Char} (hc : key.sequence = [c]) (hdigit : c.isDigit = true) : key = .char '0' := by
  have hall : ∀ binding ∈ motionKeys, binding.1.sequence.any Char.isDigit = true →
      binding.1 = .char '0' := by
    decide
  exact hall _ h (List.any_eq_true.mpr ⟨c, hc ▸ List.mem_cons_self, hdigit⟩)

/-! ## Counts -/

/-- A count that can be typed: digits, of which the first is not a zero.  No digits are no count. -/
structure IsCount (digits : Text) : Prop where
  isDigit : ∀ c ∈ digits, c.isDigit = true
  leads : digits.head? ≠ some '0'

/-- The count that digits make, if there are any. -/
def countOf? (digits : Text) : Option Nat :=
  if digits = [] then none else some (min (Nat.ofDigitChars 10 digits 0) countLimit)

/-- How often digits ask for something.  Without digits, once. -/
def countOf (digits : Text) : Nat := (countOf? digits).getD 1

/-- A count with one more digit. -/
def extendCount (count : Option Nat) (c : Char) : Option Nat :=
  some (min (count.getD 0 * 10 + (c.toNat - 48)) countLimit)

/-- Capping a number at each digit is capping it in the end. -/
theorem foldl_extendCount (digits : Text) (number : Nat) :
    digits.foldl extendCount (some (min number countLimit)) =
      some (min (Nat.ofDigitChars 10 digits number) countLimit) := by
  induction digits generalizing number with
  | nil => rfl
  | cons c rest ih =>
    have hcapped : min (min number countLimit * 10 + (c.toNat - 48)) countLimit =
        min (10 * number + (c.toNat - 48)) countLimit := by
      rw [countLimit]
      omega
    rw [List.foldl_cons, extendCount, Option.getD_some, hcapped, ih, Nat.ofDigitChars_cons]
    rfl

/-- The count after typing digits. -/
theorem foldl_extendCount_none (digits : Text) :
    digits.foldl extendCount none = countOf? digits := by
  cases digits with
  | nil => rfl
  | cons c rest =>
    have hfirst : extendCount none c = some (min (c.toNat - 48) countLimit) := by
      rw [extendCount, Option.getD_none, Nat.zero_mul, Nat.zero_add]
    rw [List.foldl_cons, hfirst, foldl_extendCount, countOf?, if_neg (List.cons_ne_nil c rest),
      Nat.ofDigitChars_cons, Nat.mul_zero, Nat.zero_add]
    rfl

/-- Whoever asks for something asks for it at least once. -/
theorem one_le_countOf {digits : Text} (h : IsCount digits) : 1 ≤ countOf digits := by
  cases digits with
  | nil => exact Nat.le_refl 1
  | cons c rest =>
    have hnonzero : c.toNat ≠ '0'.toNat := fun hzero =>
      h.leads (congrArg some (Char.toNat_inj.mp hzero))
    have hdigit := Char.isDigit_iff_toNat.mp (h.isDigit c List.mem_cons_self)
    have hpower : 0 < 10 ^ rest.length := Nat.pow_pos (by decide)
    have hvalue : 1 ≤ 10 ^ rest.length * (c.toNat - '0'.toNat) :=
      Nat.mul_pos hpower (by omega)
    rw [countOf, countOf?, if_neg (List.cons_ne_nil c rest), Option.getD_some,
      Nat.ofDigitChars_cons, Nat.mul_zero, Nat.zero_add, Nat.ofDigitChars_eq_ofDigitChars_zero,
      countLimit]
    omega

/-! ## Parsing the keys of an operation -/

/-- The dispatcher between two keys, with the usual bindings.  No action holds the focus. -/
structure Awaits (m : Vi) (status : Status) (operatorCount count : Option Nat) : Prop where
  table : m.table = .ofBindings defaults
  free : m.focus.any Focus.isHeld = false
  status : m.status = status
  operatorCount : m.operatorCount = operatorCount
  count : m.count = count

section Parsing

variable {m : Vi} {count : Option Nat} {stroke : Stroke}

/-- A digit extends the count. -/
theorem resolve_digit {c : Char} (hstatus : m.status.takesText = false)
    (hstroke : stroke.sequence = [c]) (hdigit : c.isDigit = true)
    (hzero : c = '0' → m.count ≠ none) :
    m.resolve stroke = ({ m with count := extendCount m.count c }, none) := by
  have hcount : m.countDigit? stroke = some (c.toNat - 48) := by
    have hcounts : c.isDigit = true ∧ ¬(c = '0' ∧ m.count = none) :=
      ⟨hdigit, fun h => hzero h.1 h.2⟩
    rw [countDigit?, hstatus, Stroke.single?_eq_some.mpr hstroke]
    exact if_pos hcounts
  rw [resolve, hcount]
  rfl

/-- An operator takes the count for its own. -/
theorem resolve_operator (op : Operator) (hstatus : m.status = .command)
    (hentry : entryOf m.table.bindings .command op.sequence =
      some ⟨op.command, .command, op.status, .never⟩)
    (hstroke : stroke.sequence = op.sequence) :
    m.resolve stroke =
      ({ m with operatorCount := m.count, count := none, status := op.status },
        some (.plain op.command 1)) := by
  have hdigit : m.countDigit? stroke = none := countDigit?_eq_none fun c hc hdigit => by
    rw [op.not_digit (hstroke ▸ hc)] at hdigit
    cases hdigit
  have hnot : m.status ≠ .replace := by
    rw [hstatus]
    decide
  rw [← hstatus, ← hstroke] at hentry
  rw [resolve_of_entry hdigit hnot hentry, follow, hstatus]
  cases op <;> rfl

/-- An entry that does something at once: no action takes the focus for it, and no operator waits
behind it. -/
structure Immediate (entry : Entry) : Prop where
  plain : entry.command.takesFocus = false
  once : entry.next ≠ .again
  ends : entry.next.awaitsMotion = false

/-- A key that does something at once uses up both counts. -/
theorem resolve_immediate {entry : Entry} (hdigit : m.countDigit? stroke = none)
    (hstatus : m.status ≠ .replace)
    (hentry : entryOf m.table.bindings m.status stroke.sequence = some entry)
    (himmediate : Immediate entry) :
    let action := Action.ofCommand entry.command m.status.operation m.totalCount
    m.resolve stroke =
      ({ m.forgetCounts with
          status := entry.next
          lastChange := if entry.isRecorded m.status then some action else m.lastChange },
        some action) := by
  obtain ⟨hplain, honce, hends⟩ := himmediate
  rw [resolve_of_entry hdigit hstatus hentry, follow]
  dsimp only
  rw [hplain, if_neg Bool.false_ne_true, if_neg honce, hends]
  rfl

/-- An operator's motion is done at once. -/
theorem immediate_of_motion (op : Operator) {key : Key} {command : Command}
    (h : (key, command) ∈ motionKeys) :
    Immediate ⟨command, op.status, op.next, .withOperator⟩ := by
  have hall : ∀ binding ∈ motionKeys, binding.2.takesFocus = false := by decide
  exact ⟨hall (key, command) h, op.next_ne_again, op.awaitsMotion_next⟩

/-- A motion's key is no digit of a count, unless it is a zero by itself. -/
theorem uncounted_of_motion {key : Key} {command : Command} (hkey : (key, command) ∈ motionKeys)
    (hstroke : stroke.sequence = key.sequence) (hzero : key = .char '0' → count = none) (c : Char)
    (hc : stroke.sequence = [c]) (hdigit : c.isDigit = true) : c = '0' ∧ count = none := by
  have hchar := zero_of_digit_motion hkey (hstroke ▸ hc) hdigit
  refine ⟨?_, hzero hchar⟩
  rw [hstroke, hchar] at hc
  exact (List.cons.inj hc).1.symm

end Parsing

end Vi

end PromptLine
