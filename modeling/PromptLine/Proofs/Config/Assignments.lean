import Mathlib.Data.List.Induction
import Mathlib.Logic.Function.Basic
import PromptLine.Config

/-!
# Options that are set one after another

A pair of a name and a value assigns a value to an option, or it is refused: because its name is
that of no option, or because the option does not read its value.  Which of these it is depends on
the pair alone, and not on what has been set before.  So a list of pairs is refused for its first
pair that is, and if there is none then each option has the value that was assigned to it last, and
keeps its default if none was (`OfLastValues`).

Hence the order of pairs with different options does not matter, and looking the last values up,
option by option, leads to the same configuration.

In the program a configuration is changed where it is.  `setInPlace` does so, and as it reads the
value first, a value that is refused leaves no trace (`setInPlace_eq`).
-/

namespace PromptLine

namespace ConfigOption

/-- What an option can be set to. -/
def Value : ConfigOption → Type
  | editingMode => EditingMode
  | historySize => Nat
  | disableCompletion => Bool
  | bellStyle => BellStyle

/-- The value that a text means for an option. -/
def read? : (option : ConfigOption) → Text → Option option.Value
  | editingMode, text => EditingMode.ofName? text
  | historySize, text => Config.readSize? text
  | disableCompletion, text => Config.readBool? text
  | bellStyle, text => BellStyle.ofName? text

theorem mem_all (option : ConfigOption) : option ∈ all := by
  cases option <;> decide

end ConfigOption

namespace Config

variable {c d : Config} {option other : ConfigOption} {name text : Text} {pair : Text × Text}
  {pairs : List (Text × Text)} {e : ConfigError}

/-! ## One option -/

/-- The value of an option. -/
def value (c : Config) : (option : ConfigOption) → option.Value
  | .editingMode => c.editingMode
  | .historySize => c.historySize
  | .disableCompletion => c.disableCompletion
  | .bellStyle => c.bellStyle

/-- The configuration with another value of an option. -/
def withValue (c : Config) : (option : ConfigOption) → option.Value → Config
  | .editingMode, mode => { c with editingMode := mode }
  | .historySize, size => { c with historySize := size }
  | .disableCompletion, disabled => { c with disableCompletion := disabled }
  | .bellStyle, style => { c with bellStyle := style }

/-- A configuration is known by the values of its options. -/
theorem eq_of_value (h : ∀ option, c.value option = d.value option) : c = d := by
  obtain ⟨mode, size, disabled, style⟩ := c
  obtain rfl : mode = d.editingMode := h .editingMode
  obtain rfl : size = d.historySize := h .historySize
  obtain rfl : disabled = d.disableCompletion := h .disableCompletion
  obtain rfl : style = d.bellStyle := h .bellStyle
  rfl

@[simp] theorem value_withValue (c : Config) (option : ConfigOption) (v : option.Value) :
    (c.withValue option v).value option = v := by
  cases option <;> rfl

theorem value_withValue_of_ne (h : other ≠ option) (v : option.Value) :
    (c.withValue option v).value other = c.value other := by
  cases option <;> cases other <;> first | rfl | exact absurd rfl h

theorem update?_eq (c : Config) (option : ConfigOption) (text : Text) :
    c.update? option text = (option.read? text).map (c.withValue option) := by
  cases option <;> rfl

theorem set_of_some {v : option.Value} (h : option.read? text.trim = some v) :
    c.set option text = .ok (c.withValue option v) := by
  rw [set, update?_eq, h]
  rfl

theorem set_of_none (h : option.read? text.trim = none) :
    c.set option text = .error (.invalidValue option.label.toList text) := by
  rw [set, update?_eq, h]
  rfl

/-! ## One pair -/

/-- An option and a value for it. -/
structure Assignment where
  option : ConfigOption
  value : option.Value

/-- Carries an assignment out. -/
def assign (c : Config) (a : Assignment) : Config := c.withValue a.option a.value

/-- The assignment that a name and a value mean.  The name is looked at first, and what is refused
is shown as it was given. -/
def readPair (pair : Text × Text) : Except ConfigError Assignment :=
  match ConfigOption.ofName? pair.1.trim with
  | none => .error (.unknownOption pair.1)
  | some option =>
    match option.read? pair.2.trim with
    | none => .error (.invalidValue option.label.toList pair.2)
    | some v => .ok ⟨option, v⟩

/-- A pair that is not refused. -/
def Accepted (pair : Text × Text) : Prop := ∃ a, readPair pair = .ok a

theorem setNamed_eq (c : Config) (pair : Text × Text) :
    c.setNamed pair.1 pair.2 = (readPair pair).map c.assign := by
  rw [setNamed, readPair]
  split
  · next option hname =>
    rw [hname]
    dsimp only
    split
    · next hvalue => exact set_of_none hvalue
    · next v hvalue => exact set_of_some hvalue
  · next hname =>
    rw [hname]
    rfl

/-- An accepted pair has the name of an option that reads its value. -/
theorem readPair_eq_ok_iff {a : Assignment} :
    readPair pair = .ok a ↔
      ConfigOption.ofName? pair.1.trim = some a.option ∧
        a.option.read? pair.2.trim = some a.value := by
  rw [readPair]
  constructor
  · intro h
    split at h
    · cases h
    · next option hname =>
      split at h
      · cases h
      · next v hvalue =>
        cases h
        exact ⟨hname, hvalue⟩
  · rintro ⟨hname, hvalue⟩
    rw [hname]
    dsimp only
    rw [hvalue]

/-! ## One pair after another -/

/-- What comes of two steps that both succeed. -/
theorem exists_of_bind {α β : Type} {first : Except ConfigError α} {next : α → Except ConfigError β}
    {b : β} (h : first.bind next = .ok b) : ∃ a, first = .ok a ∧ next a = .ok b := by
  cases first with
  | error e => cases h
  | ok a => exact ⟨a, rfl, h⟩

theorem setAll_cons (c : Config) (pair : Text × Text) (pairs : List (Text × Text)) :
    c.setAll (pair :: pairs) = (readPair pair).bind fun a => (c.assign a).setAll pairs := by
  rw [setAll, setNamed_eq]
  cases readPair pair <;> rfl

theorem setAll_append (c : Config) (earlier later : List (Text × Text)) :
    c.setAll (earlier ++ later) = (c.setAll earlier).bind (setAll · later) := by
  induction earlier generalizing c with
  | nil => rfl
  | cons pair rest ih =>
    rw [List.cons_append, setAll_cons, setAll_cons]
    cases readPair pair with
    | error e => rfl
    | ok a => exact ih (c.assign a)

/-- The list is refused for its first pair that is. -/
def FirstRefused (pairs : List (Text × Text)) (e : ConfigError) : Prop :=
  ∃ before pair rest, pairs = before ++ pair :: rest ∧ (∀ earlier ∈ before, Accepted earlier) ∧
    readPair pair = .error e

theorem firstRefused_cons :
    FirstRefused (pair :: pairs) e ↔
      readPair pair = .error e ∨ Accepted pair ∧ FirstRefused pairs e := by
  constructor
  · rintro ⟨before, refused, rest, hpairs, hbefore, herror⟩
    cases before with
    | nil =>
      cases hpairs
      exact .inl herror
    | cons earlier before =>
      cases hpairs
      obtain ⟨hfirst, hbefore⟩ := List.forall_mem_cons.mp hbefore
      exact .inr ⟨hfirst, before, refused, rest, rfl, hbefore, herror⟩
  · rintro (herror | ⟨hfirst, before, refused, rest, rfl, hbefore, herror⟩)
    · exact ⟨[], pair, pairs, rfl, List.forall_mem_nil _, herror⟩
    · exact ⟨pair :: before, refused, rest, rfl, List.forall_mem_cons.mpr ⟨hfirst, hbefore⟩, herror⟩

/-- **The error is that of the first pair that is refused.** -/
theorem setAll_eq_error_iff : c.setAll pairs = .error e ↔ FirstRefused pairs e := by
  induction pairs generalizing c with
  | nil =>
    refine iff_of_false (nomatch ·) ?_
    rintro ⟨before, pair, rest, hpairs, -⟩
    exact List.append_ne_nil_of_right_ne_nil before (List.cons_ne_nil pair rest) hpairs.symm
  | cons pair rest ih =>
    rw [setAll_cons, firstRefused_cons, Accepted]
    cases readPair pair with
    | error refusal => simp [Except.bind]
    | ok a => simp [Except.bind, ih]

/-- A list is accepted if each of its pairs is. -/
theorem exists_setAll_eq_ok_iff :
    (∃ d, c.setAll pairs = .ok d) ↔ ∀ pair ∈ pairs, Accepted pair := by
  induction pairs generalizing c with
  | nil => exact iff_of_true ⟨c, rfl⟩ (List.forall_mem_nil _)
  | cons pair rest ih =>
    rw [setAll_cons, List.forall_mem_cons, Accepted]
    cases readPair pair with
    | error refusal => simp [Except.bind]
    | ok a => simp [Except.bind, ih]

/-! ## The last value of each option -/

/-- The values that are given for an option, in order. -/
def given (pairs : List (Text × Text)) (option : ConfigOption) : List Text :=
  pairs.filterMap fun pair =>
    if ConfigOption.ofName? pair.1.trim = some option then some pair.2 else none

/-- The value that is given last, if any is. -/
def lastGiven? (pairs : List (Text × Text)) (option : ConfigOption) : Option Text :=
  (given pairs option).getLast?

/-- Every option has the value that a text means for it, or the value that it had before. -/
def Holds (texts : ConfigOption → Option Text) (c d : Config) : Prop :=
  ∀ option, match texts option with
    | none => d.value option = c.value option
    | some text => option.read? text.trim = some (d.value option)

theorem Holds.eq {texts : ConfigOption → Option Text} {d' : Config} (h : Holds texts c d)
    (h' : Holds texts c d') : d = d' := by
  refine eq_of_value fun option => ?_
  have hvalue := h option
  have hvalue' := h' option
  cases htext : texts option with
  | none =>
    rw [htext] at hvalue hvalue'
    exact hvalue.trans hvalue'.symm
  | some text =>
    rw [htext] at hvalue hvalue'
    exact Option.some.inj (hvalue.symm.trans hvalue')

/-- Setting an option once more. -/
theorem Holds.withValue {texts : ConfigOption → Option Text} {v : option.Value}
    (h : Holds texts c d) (hread : option.read? text.trim = some v) :
    Holds (Function.update texts option (some text)) c (d.withValue option v) := by
  intro other
  by_cases hother : other = option
  · subst hother
    rw [Function.update_self, value_withValue]
    exact hread
  · rw [Function.update_of_ne hother, value_withValue_of_ne hother]
    exact h other

theorem given_append (earlier later : List (Text × Text)) (option : ConfigOption) :
    given (earlier ++ later) option = given earlier option ++ given later option :=
  List.filterMap_append

theorem given_singleton (h : ConfigOption.ofName? pair.1.trim = some option)
    (other : ConfigOption) : given [pair] other = if other = option then [pair.2] else [] := by
  rw [given, List.filterMap_cons, h]
  by_cases hother : other = option
  · subst hother
    simp
  · simp [hother, Ne.symm hother]

theorem mem_given_iff :
    text ∈ given pairs option ↔
      ∃ name, (name, text) ∈ pairs ∧ ConfigOption.ofName? name.trim = some option := by
  simp [given]

theorem lastGiven?_append_singleton {a : Assignment} (earlier : List (Text × Text))
    (h : readPair pair = .ok a) :
    lastGiven? (earlier ++ [pair]) =
      Function.update (lastGiven? earlier) a.option (some pair.2) := by
  funext other
  rw [lastGiven?, given_append, given_singleton (readPair_eq_ok_iff.mp h).1]
  by_cases hother : other = a.option
  · subst hother
    rw [Function.update_self, if_pos rfl]
    exact List.getLast?_concat
  · rw [Function.update_of_ne hother, if_neg hother, List.append_nil]
    rfl

/-- **The last value of each option holds.** -/
theorem holds_of_setAll (h : c.setAll pairs = .ok d) : Holds (lastGiven? pairs) c d := by
  induction pairs using List.reverseRecOn generalizing d with
  | nil =>
    cases h
    exact fun _ => rfl
  | append_singleton earlier pair ih =>
    rw [setAll_append] at h
    obtain ⟨before, hearlier, hlast⟩ := exists_of_bind h
    rw [setAll_cons] at hlast
    obtain ⟨a, hpair, hassign⟩ := exists_of_bind hlast
    cases hassign
    rw [lastGiven?_append_singleton earlier hpair]
    exact (ih hearlier).withValue (readPair_eq_ok_iff.mp hpair).2

/-! ## Looking values up -/

/-- The values that a look-up knows, each with the name of its option. -/
def named (lookup : ConfigOption → Option Text) : List (Text × Text) :=
  ConfigOption.all.filterMap fun option =>
    (lookup option).map fun text => (option.label.toList, text)

theorem ofName?_trim_label (option : ConfigOption) :
    ConfigOption.ofName? (Text.trim option.label.toList) = some option := by
  cases option <;> decide

/-- Looking values up is setting them by the names of their options. -/
theorem ofLookup_eq (lookup : ConfigOption → Option Text) :
    ofLookup lookup = ofOptions (named lookup) := by
  rw [ofLookup, ofOptions, named]
  generalize default = c
  induction ConfigOption.all generalizing c with
  | nil => rfl
  | cons option rest ih =>
    rw [setFrom, List.filterMap_cons]
    cases lookup option with
    | none => exact ih c
    | some text =>
      dsimp only [Option.map_some]
      rw [setAll, setNamed, ofName?_trim_label]
      exact congrArg _ (funext ih)

/-- What is known of an option is given for it once. -/
theorem given_named (lookup : ConfigOption → Option Text) (option : ConfigOption) :
    given (named lookup) option = (lookup option).toList := by
  have hpair (other : ConfigOption) :
      ((lookup other).map fun text => (other.label.toList, text)).bind (fun pair : Text × Text =>
        if ConfigOption.ofName? pair.1.trim = some option then some pair.2 else none) =
      if other = option then lookup other else none := by
    cases lookup other with
    | none => simp
    | some text => simp [ofName?_trim_label]
  rw [given, named, List.filterMap_filterMap]
  simp only [hpair]
  cases option <;> simp [ConfigOption.all, List.filterMap_cons] <;> cases lookup _ <;> rfl

theorem lastGiven?_named (lookup : ConfigOption → Option Text) :
    lastGiven? (named lookup) = lookup := by
  funext option
  rw [lastGiven?, given_named]
  cases lookup option <;> rfl

/-! ## What a list of pairs comes to -/

/-- A configuration that is due to the last values of a list of pairs and to nothing else about it:
each option has the value that was given last, or its default; looking the last values up leads to
the same configuration; and so does every list with the same last values that is not refused, and
the list in any other order that keeps the order of the values of each option. -/
structure OfLastValues (pairs : List (Text × Text)) (c : Config) : Prop where
  holds : Holds (lastGiven? pairs) default c
  lookup : ofLookup (lastGiven? pairs) = .ok c
  others : ∀ others d, ofOptions others = .ok d → lastGiven? others = lastGiven? pairs → d = c
  reordered : ∀ others, others.Perm pairs → (∀ option, given others option = given pairs option) →
    ofOptions others = .ok c

theorem accepted_named (h : ∀ pair ∈ pairs, Accepted pair) :
    ∀ pair ∈ named (lastGiven? pairs), Accepted pair := by
  intro pair hpair
  obtain ⟨option, -, hlast⟩ := List.mem_filterMap.mp hpair
  obtain ⟨text, htext, rfl⟩ := Option.map_eq_some_iff.mp hlast
  obtain ⟨name, hmem, hname⟩ := mem_given_iff.mp (List.mem_of_getLast? htext)
  obtain ⟨a, ha⟩ := h _ hmem
  obtain ⟨hoption, hread⟩ := readPair_eq_ok_iff.mp ha
  obtain rfl : option = a.option := Option.some.inj (hname.symm.trans hoption)
  exact ⟨a, readPair_eq_ok_iff.mpr ⟨ofName?_trim_label _, hread⟩⟩

theorem eq_of_lastGiven? {others : List (Text × Text)} (h : ofOptions pairs = .ok c)
    (hothers : ofOptions others = .ok d) (hlast : lastGiven? others = lastGiven? pairs) : d = c :=
  (hlast ▸ holds_of_setAll hothers).eq (holds_of_setAll h)

/-- **A list that is not refused** comes to its last values. -/
theorem ofLastValues_of_ofOptions (h : ofOptions pairs = .ok c) : OfLastValues pairs c := by
  have haccepted := exists_setAll_eq_ok_iff.mp ⟨c, h⟩
  refine ⟨holds_of_setAll h, ?_, fun others d => eq_of_lastGiven? h, fun others hperm hgiven => ?_⟩
  · obtain ⟨d, hd⟩ := exists_setAll_eq_ok_iff (c := default).mpr (accepted_named haccepted)
    rw [ofLookup_eq]
    exact hd.trans (congrArg _ (eq_of_lastGiven? h hd (lastGiven?_named _)))
  · have hothers : ∀ pair ∈ others, Accepted pair :=
      fun pair hpair => haccepted pair (hperm.mem_iff.mp hpair)
    obtain ⟨d, hd⟩ := exists_setAll_eq_ok_iff (c := default).mpr hothers
    have hlast : lastGiven? others = lastGiven? pairs :=
      funext fun option => congrArg List.getLast? (hgiven option)
    exact hd.trans (congrArg _ (eq_of_lastGiven? h hd hlast))

/-! ## Changing a configuration where it is -/

/-- The value that was read for an option, or the error that shows the text. -/
def accept {α : Type} (option : ConfigOption) (text : Text) :
    Option α → ExceptT ConfigError (StateM Config) α
  | some v => pure v
  | none => throw (.invalidValue option.label.toList text)

/-- Sets one option of the configuration at hand. -/
def setInPlace (option : ConfigOption) (text : Text) : ExceptT ConfigError (StateM Config) Unit :=
  match option with
  | .editingMode => do
    let mode ← accept option text (EditingMode.ofName? text.trim)
    modify fun c => { c with editingMode := mode }
  | .historySize => do
    let size ← accept option text (readSize? text.trim)
    modify fun c => { c with historySize := size }
  | .disableCompletion => do
    let disabled ← accept option text (readBool? text.trim)
    modify fun c => { c with disableCompletion := disabled }
  | .bellStyle => do
    let style ← accept option text (BellStyle.ofName? text.trim)
    modify fun c => { c with bellStyle := style }

/-- **A value that is refused leaves no trace.** -/
theorem setInPlace_eq (option : ConfigOption) (text : Text) (c : Config) :
    (setInPlace option text).run c =
      match c.set option text with
      | .ok d => (.ok (), d)
      | .error e => (.error e, c) := by
  cases option with
  | editingMode =>
    rw [set, update?, setInPlace]
    cases EditingMode.ofName? text.trim <;> rfl
  | historySize =>
    rw [set, update?, setInPlace]
    cases readSize? text.trim <;> rfl
  | disableCompletion =>
    rw [set, update?, setInPlace]
    cases readBool? text.trim <;> rfl
  | bellStyle =>
    rw [set, update?, setInPlace]
    cases BellStyle.ofName? text.trim <;> rfl

end Config

end PromptLine
