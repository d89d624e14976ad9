import PromptLine.Proofs.Config.Assignments

/-!
# Spellings

A name or a value may be spelled in many ways: its letters can be in either case, and blanks can
stand around it.  `Spells` says that a text is a spelling of a word.  The words that are shown for a
configuration have no blanks in them, so trimming a spelling leaves the word but for the case of its
letters (`Spells.sameLetters_trim`).  Names and truth values are compared up to that case, and
digits have none.

So a configuration that is shown, option by option, can be read back from any spelling of what is
shown, in any order.  Together with what lists of pairs come to in general this is
`ofOptions_laws`.
-/

namespace PromptLine

namespace Unicode

/-! ## Letters, digits and blanks -/

/-- What holds of the code points of ASCII, and of all others, holds of every code point. -/
theorem forall_char {P : Char → Prop} (hascii : ∀ n < 128, P (Char.ofNat n))
    (hothers : ∀ c : Char, 128 ≤ c.toNat → P c) (c : Char) : P c := by
  rcases Nat.lt_or_ge c.toNat 128 with hlt | hge
  · rw [← Char.ofNat_toNat c]
    exact hascii c.toNat hlt
  · exact hothers c hge

/-- Outside of ASCII there is only one case. -/
theorem toLower_of_ge {c : Char} (h : 128 ≤ c.toNat) : c.toLower = c := by
  refine dif_neg fun hupper => ?_
  have hle : c.toNat ≤ 90 := UInt32.le_iff_toNat_le.mp hupper.2
  omega

/-- The case of a letter does not make it a blank. -/
theorem isBlank_toLower (c : Char) : isBlank c.toLower = isBlank c := by
  refine forall_char (P := fun c => isBlank c.toLower = isBlank c) (by decide) (fun c hge => ?_) c
  rw [toLower_of_ge hge]

theorem isDigit_toLower (c : Char) : c.toLower.isDigit = c.isDigit := by
  refine forall_char (P := fun c => c.toLower.isDigit = c.isDigit) (by decide) (fun c hge => ?_) c
  rw [toLower_of_ge hge]

theorem isBlank_of_isDigit {c : Char} (h : c.isDigit = true) : isBlank c = false := by
  revert h
  refine forall_char (P := fun c => c.isDigit = true → isBlank c = false) (by decide)
    (fun c hge hdigit => ?_) c
  have hle : c.toNat ≤ 57 :=
    UInt32.le_iff_toNat_le.mp (of_decide_eq_true (Bool.and_eq_true_iff.mp hdigit).2)
  omega

/-- A digit has no case. -/
theorem toLower_of_isDigit {c : Char} (h : c.isDigit = true) : c.toLower = c := by
  revert h
  exact forall_char (P := fun c => c.isDigit = true → c.toLower = c) (by decide)
    (fun c hge _ => toLower_of_ge hge) c

end Unicode

namespace Text

variable {word text : Text}

/-- A text that is a word, up to the case of its ASCII letters and blanks around it. -/
def Spells (word text : Text) : Prop :=
  ∃ left middle right, text = left ++ middle ++ right ∧ (∀ c ∈ left, Unicode.isBlank c = true) ∧
    (∀ c ∈ right, Unicode.isBlank c = true) ∧ sameLetters word middle = true

theorem dropWhile_blanks {blanks middle : Text} (hne : middle ≠ [])
    (hblanks : ∀ c ∈ blanks, Unicode.isBlank c = true)
    (hmiddle : ∀ c ∈ middle, Unicode.isBlank c = false) (rest : Text) :
    (blanks ++ (middle ++ rest)).dropWhile Unicode.isBlank = middle ++ rest := by
  rw [List.dropWhile_append_of_pos hblanks]
  cases middle with
  | nil => exact absurd rfl hne
  | cons c middle =>
    have hc : ¬Unicode.isBlank c = true := Bool.eq_false_iff.mp (hmiddle c List.mem_cons_self)
    exact List.dropWhile_cons_of_neg hc

/-- A word without blanks, between blanks, is what trimming leaves. -/
theorem trim_append {left middle right : Text} (hne : middle ≠ [])
    (hleft : ∀ c ∈ left, Unicode.isBlank c = true)
    (hmiddle : ∀ c ∈ middle, Unicode.isBlank c = false)
    (hright : ∀ c ∈ right, Unicode.isBlank c = true) :
    trim (left ++ middle ++ right) = middle := by
  have hbehind : ∀ c ∈ right.reverse, Unicode.isBlank c = true :=
    fun c hc => hright c (List.mem_reverse.mp hc)
  have hword : ∀ c ∈ middle.reverse, Unicode.isBlank c = false :=
    fun c hc => hmiddle c (List.mem_reverse.mp hc)
  have hback := dropWhile_blanks (mt List.reverse_eq_nil_iff.mp hne) hbehind hword []
  rw [List.append_nil, ← List.reverse_append] at hback
  rw [trim, List.append_assoc, dropWhile_blanks hne hleft hmiddle, hback, List.reverse_reverse]

theorem sameLetters_iff {a b : Text} :
    sameLetters a b = true ↔ a.map Char.toLower = b.map Char.toLower := beq_iff_eq

/-- A text that trimming leaves alone, since there are no blanks in it. -/
def Word (text : Text) : Prop := text ≠ [] ∧ ∀ c ∈ text, Unicode.isBlank c = false

instance (text : Text) : Decidable text.Word :=
  have : Decidable (∀ c ∈ text, Unicode.isBlank c = false) := List.decidableBAll _ text
  inferInstanceAs (Decidable (_ ∧ _))

/-- Letters of the same name are blanks in both cases or in none. -/
theorem isBlank_of_sameLetters {a b : Text} (h : sameLetters a b = true)
    (ha : ∀ c ∈ a, Unicode.isBlank c = false) : ∀ c ∈ b, Unicode.isBlank c = false := by
  intro c hc
  have hmem : c.toLower ∈ a.map Char.toLower := by
    rw [sameLetters_iff.mp h]
    exact List.mem_map_of_mem hc
  obtain ⟨c', hc', heq⟩ := List.mem_map.mp hmem
  rw [← Unicode.isBlank_toLower, ← heq, Unicode.isBlank_toLower]
  exact ha c' hc'

/-- **Trimming a spelling** leaves the word, up to the case of its letters. -/
theorem Spells.sameLetters_trim (h : Spells word text) (hword : word.Word) :
    sameLetters word text.trim = true := by
  obtain ⟨left, middle, right, rfl, hleft, hright, hmiddle⟩ := h
  have hmne : middle ≠ [] := by
    rintro rfl
    exact hword.1 (List.map_eq_nil_iff.mp (sameLetters_iff.mp hmiddle))
  rw [trim_append hmne hleft (isBlank_of_sameLetters hmiddle hword.2) hright]
  exact hmiddle

theorem sameLetters_congr {a b : Text} (h : sameLetters a b = true) (word : Text) :
    sameLetters word b = sameLetters word a := by
  rw [sameLetters, sameLetters, sameLetters_iff.mp h]

/-- Names are compared up to the case of their letters. -/
theorem chooseAnyCase?_congr {α : Type} {items : List α} {nameOf : α → String} {a b : Text}
    (h : sameLetters a b = true) :
    chooseAnyCase? items nameOf b = chooseAnyCase? items nameOf a := by
  simp only [chooseAnyCase?, sameLetters_congr h]

/-- Digits are the same in any case. -/
theorem eq_of_sameLetters {digits text : Text} (hdigits : ∀ c ∈ digits, c.isDigit = true)
    (h : sameLetters digits text = true) : text = digits := by
  have hmap {word : Text} (hword : ∀ c ∈ word, c.isDigit = true) : word.map Char.toLower = word :=
    (List.map_congr_left fun c hc => Unicode.toLower_of_isDigit (hword c hc)).trans (List.map_id _)
  have hlower := sameLetters_iff.mp h
  rw [hmap hdigits] at hlower
  have htext : ∀ c ∈ text, c.isDigit = true := by
    intro c hc
    rw [← Unicode.isDigit_toLower]
    exact hdigits _ (hlower ▸ List.mem_map_of_mem hc)
  rw [hlower, hmap htext]

end Text

namespace Config

variable {c : Config} {option : ConfigOption} {text : Text}

/-! ## Truth values and numbers -/

/-- Words for truth values are compared up to the case of their letters. -/
theorem readBool?_congr {a b : Text} (h : Text.sameLetters a b = true) :
    readBool? b = readBool? a := by
  simp only [readBool?, Text.sameLetters_congr h]

theorem readDigits?_append (start : Nat) (front rest : Text) :
    readDigits? start (front ++ rest) = (readDigits? start front).bind (readDigits? · rest) := by
  induction front generalizing start with
  | nil => rfl
  | cons c front ih =>
    rw [List.cons_append, readDigits?, readDigits?]
    split
    · exact ih _
    · rfl

theorem readDigits?_digitChar {digit : Nat} (h : digit < 10) (start : Nat) :
    readDigits? start [digit.digitChar] = some (start * 10 + digit) := by
  have hdigit : digit.digitChar.isDigit = true := by
    revert digit
    decide
  rw [readDigits?, if_pos hdigit, Nat.toNat_digitChar_of_lt_ten h, readDigits?,
    Nat.add_sub_cancel_left]

/-- **The decimal digits of a number** have that number as their value. -/
theorem readDigits?_toDigits (n : Nat) : readDigits? 0 (Nat.toDigits 10 n) = some n := by
  induction n using Nat.strongRecOn with
  | ind n ih =>
    rw [Nat.toDigits_eq_if (by decide)]
    split
    · next hsmall => rw [readDigits?_digitChar hsmall, Nat.zero_mul, Nat.zero_add]
    · next hlarge =>
      have hlast := readDigits?_digitChar (Nat.mod_lt n (by decide)) (n / 10)
      rw [readDigits?_append, ih (n / 10) (by omega), Option.bind_some, hlast, Nat.div_add_mod']

/-- Digits without a sign. -/
theorem readSize?_of_digits {digits : Text} (hne : digits ≠ [])
    (hdigits : ∀ c ∈ digits, c.isDigit = true) :
    readSize? digits = (readDigits? 0 digits).filter (· < sizeBound) := by
  cases digits with
  | nil => exact absurd rfl hne
  | cons c rest =>
    have hplus : c ≠ '+' := by
      rintro rfl
      exact absurd (hdigits '+' List.mem_cons_self) (by decide)
    simp [readSize?, hplus]

theorem readSize?_toDigits {n : Nat} (h : n < sizeBound) :
    readSize? (Nat.toDigits 10 n) = some n := by
  have hdigits : ∀ c ∈ Nat.toDigits 10 n, c.isDigit = true := fun c hc =>
    Nat.isDigit_of_mem_toDigits (by decide) (by decide) hc
  rw [readSize?_of_digits Nat.toDigits_ne_nil hdigits, readDigits?_toDigits]
  exact Option.filter_some_pos (decide_eq_true h)

/-! ## What is shown and read back -/

/-- How the value of an option is shown. -/
def display (c : Config) : ConfigOption → Text
  | .editingMode => c.editingMode.label.toList
  | .historySize => Nat.toDigits 10 c.historySize
  | .disableCompletion => (toString c.disableCompletion).toList
  | .bellStyle => c.bellStyle.label.toList

theorem word_label (option : ConfigOption) : Text.Word option.label.toList := by
  cases option <;> decide

theorem word_toDigits (n : Nat) : Text.Word (Nat.toDigits 10 n) := by
  refine ⟨Nat.toDigits_ne_nil, fun c hc => ?_⟩
  exact Unicode.isBlank_of_isDigit (Nat.isDigit_of_mem_toDigits (by decide) (by decide) hc)

theorem word_display (c : Config) (option : ConfigOption) : Text.Word (c.display option) := by
  have hmode (mode : EditingMode) : Text.Word mode.label.toList := by
    cases mode <;> decide
  have hbool (b : Bool) : Text.Word (toString b).toList := by
    cases b <;> decide
  have hstyle (style : BellStyle) : Text.Word style.label.toList := by
    cases style <;> decide
  cases option with
  | editingMode => exact hmode c.editingMode
  | historySize => exact word_toDigits c.historySize
  | disableCompletion => exact hbool c.disableCompletion
  | bellStyle => exact hstyle c.bellStyle

theorem readBool?_toString (b : Bool) : readBool? (toString b).toList = some b := by
  cases b <;> decide

/-- **A value that is shown is read back** from any spelling. -/
theorem read?_of_spells (hsize : c.historySize < sizeBound)
    (h : Text.Spells (c.display option) text) :
    option.read? text.trim = some (c.value option) := by
  have htrim := h.sameLetters_trim (c.word_display option)
  cases option with
  | editingMode => exact (Text.chooseAnyCase?_congr htrim).trans c.editingMode.ofName?_label
  | historySize =>
    have hdigits : ∀ digit ∈ Nat.toDigits 10 c.historySize, digit.isDigit = true :=
      fun digit hdigit => Nat.isDigit_of_mem_toDigits (by decide) (by decide) hdigit
    rw [Text.eq_of_sameLetters hdigits htrim]
    exact readSize?_toDigits hsize
  | disableCompletion => exact (readBool?_congr htrim).trans (readBool?_toString _)
  | bellStyle => exact (Text.chooseAnyCase?_congr htrim).trans c.bellStyle.ofName?_label

theorem ofName?_of_spells (h : Text.Spells option.label.toList text) :
    ConfigOption.ofName? text.trim = some option := by
  have htrim := h.sameLetters_trim (word_label option)
  exact (Text.chooseAnyCase?_congr htrim).trans option.ofName?_label

/-- Every option of an order, with a name and a value for it. -/
def listed (order : List ConfigOption) (names values : ConfigOption → Text) : List (Text × Text) :=
  order.map fun option => (names option, values option)

section Listed

variable {order : List ConfigOption} {names values : ConfigOption → Text}

theorem lastGiven?_listed (horder : order.Perm ConfigOption.all)
    (hnames : ∀ option, ConfigOption.ofName? (names option).trim = some option) :
    lastGiven? (listed order names values) = fun option => some (values option) := by
  funext option
  have hgiven : values option ∈ given (listed order names values) option :=
    mem_given_iff.mpr ⟨names option,
      List.mem_map_of_mem (horder.mem_iff.mpr option.mem_all), hnames option⟩
  obtain ⟨text, htext⟩ := Option.isSome_iff_exists.mp
    (List.getLast?_isSome.mpr (List.ne_nil_of_mem hgiven))
  -- No other option has the name, so there is no other value.
  obtain ⟨name, hmem, hname⟩ := mem_given_iff.mp (List.mem_of_getLast? htext)
  obtain ⟨other, -, hother⟩ := List.mem_map.mp hmem
  obtain ⟨rfl, rfl⟩ := Prod.mk.inj hother
  obtain rfl : other = option := Option.some.inj ((hnames other).symm.trans hname)
  exact htext

/-- **A configuration that is shown is read back**, whatever the order of its options is and however
their names and values are spelled. -/
theorem ofOptions_listed (hsize : c.historySize < sizeBound) (horder : order.Perm ConfigOption.all)
    (hnames : ∀ option, Text.Spells option.label.toList (names option))
    (hvalues : ∀ option, Text.Spells (c.display option) (values option)) :
    ofOptions (listed order names values) = .ok c := by
  have hread (option : ConfigOption) := read?_of_spells hsize (hvalues option)
  have haccepted : ∀ pair ∈ listed order names values, Accepted pair := by
    intro pair hpair
    obtain ⟨option, -, rfl⟩ := List.mem_map.mp hpair
    exact ⟨⟨option, c.value option⟩,
      readPair_eq_ok_iff.mpr ⟨ofName?_of_spells (hnames option), hread option⟩⟩
  obtain ⟨d, hd⟩ := exists_setAll_eq_ok_iff (c := default).mpr haccepted
  have hholds := holds_of_setAll hd
  rw [lastGiven?_listed horder fun option => ofName?_of_spells (hnames option)] at hholds
  exact hd.trans (congrArg _ (hholds.eq hread))

end Listed

/-- **How configurations are read.**  A list of names and values is refused with the error of its
first pair that is not accepted.  Otherwise it comes to the last values of the options, which
looking them up comes to as well, and only the order of the values of one option matters.  Setting
an option to a value that is refused leaves the configuration as it was.  And a configuration whose
history size is a word of 64 bits is read back from how it is shown. -/
theorem ofOptions_laws (pairs : List (Text × Text)) :
    (∀ e, ofOptions pairs = .error e ↔ FirstRefused pairs e) ∧
      (∀ c, ofOptions pairs = .ok c → OfLastValues pairs c) ∧
      (∀ (c : Config) option text, (setInPlace option text).run c =
        match c.set option text with
        | .ok d => (.ok (), d)
        | .error e => (.error e, c)) ∧
      ∀ c : Config, c.historySize < sizeBound → ∀ order, order.Perm ConfigOption.all →
        ∀ names values, (∀ option, Text.Spells option.label.toList (names option)) →
          (∀ option, Text.Spells (c.display option) (values option)) →
            ofOptions (listed order names values) = .ok c :=
  ⟨fun _ => setAll_eq_error_iff, fun _ => ofLastValues_of_ofOptions,
    fun c option text => setInPlace_eq option text c,
    fun _ hsize _ horder _ _ hnames hvalues => ofOptions_listed hsize horder hnames hvalues⟩

/-- The history size is set twice, and with the editing mode in another place the last of its values
holds as well.  A configuration with the largest size is read back from names in small letters and
values with blanks. -/
theorem ofOptions_laws_sizes :
    let mode : Text × Text := ("Editing_Mode".toList, "VI".toList)
    let first : Text × Text := ("history_size".toList, " 42 ".toList)
    let second : Text × Text := ("HISTORY_SIZE".toList, "+7".toList)
    let largest : Config := ⟨.emacs, sizeBound - 1, true, .none⟩
    ofOptions [mode, first, second] = .ok ⟨.vi, 7, false, .audible⟩ ∧
      ofOptions [first, mode, second] = .ok ⟨.vi, 7, false, .audible⟩ ∧
      ofOptions (listed ConfigOption.all (fun option => option.label.toList.map Char.toLower)
        fun option => ' ' :: largest.display option) = .ok largest := by
  intro mode first second largest
  obtain ⟨-, hlast, -, hshown⟩ := ofOptions_laws [mode, first, second]
  have hset : ofOptions [mode, first, second] = .ok ⟨.vi, 7, false, .audible⟩ := by decide
  have hgiven : ∀ option,
      given [first, mode, second] option = given [mode, first, second] option := by
    intro option
    cases option <;> decide
  refine ⟨hset, (hlast _ hset).reordered _ (.swap mode first [second]) hgiven, ?_⟩
  refine hshown largest (by decide) _ (.refl _) _ _ (fun option => ?_) fun option => ?_
  · exact ⟨[], _, [], (List.append_nil _).symm, List.forall_mem_nil _, List.forall_mem_nil _,
      by cases option <;> decide⟩
  · exact ⟨[' '], _, [], (List.append_nil _).symm, List.forall_mem_singleton.mpr (by decide),
      List.forall_mem_nil _, beq_self_eq_true _⟩

end Config

end PromptLine
