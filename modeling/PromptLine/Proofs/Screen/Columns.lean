import PromptLine.Screen

/-!
# The column of the cursor

A terminal is told where in its row the cursor belongs by a command that ends in the number of a
column, counted from one.  A line or a banner is drawn from the first column on, and the last thing
that is written is such a command.  A prompt may contain commands of its own, and so may a line, but
none of them comes later: `lastColumn?` reads the last one off a text, and after `cursorTo` this is
the one that `cursorTo` wrote, whatever stands before it (`lastColumn?_append_cursorTo`).

Columns are counted from zero here, and a terminal's number is one more.  The sum is a word of 16
bits, and so is the column that goes into it: `columnWord` takes the nearest word.  That is the
largest word for every column that is none, and one more than this is no word.  A machine that checks
its sums stops, and one that does not goes on with zero, which tells the terminal to put the cursor
at its left edge.  The largest column with a number is 65534.  So the cursor of a drawing is put
where it belongs in the columns before 65535, and in no other (`aligned_iff`).
-/

namespace PromptLine

namespace Text

/-! ## Reading commands -/

/-- The number in the command that a text starts with, if that command puts the cursor in a
column. -/
def columnAt? : Text → Option Nat
  | first :: second :: rest =>
    let digits := rest.takeWhile Char.isDigit
    if [first, second] = [escape, '['] ∧ digits ≠ [] ∧
        (rest.dropWhile Char.isDigit).head? = some 'G' then
      some (Nat.ofDigitChars 10 digits 0)
    else none
  | _ => none

/-- The number in the last command of a text that puts the cursor in a column. -/
def lastColumn? : Text → Option Nat
  | [] => none
  | c :: rest => (lastColumn? rest).or (columnAt? (c :: rest))

/-- Commands start with an escape. -/
theorem columnAt?_of_ne {c : Char} (h : c ≠ escape) (rest : Text) :
    columnAt? (c :: rest) = none := by
  cases rest with
  | nil => rfl
  | cons second rest => exact if_neg fun hcommand => h (List.cons_eq_cons.mp hcommand.1).1

theorem lastColumn?_eq_none {text : Text} (h : escape ∉ text) : text.lastColumn? = none := by
  induction text with
  | nil => rfl
  | cons c rest ih =>
    have hne : c ≠ escape := fun heq => h (heq ▸ List.mem_cons_self)
    rw [lastColumn?, ih fun hmem => h (List.mem_cons_of_mem c hmem), columnAt?_of_ne hne]
    rfl

/-- What is written later counts, whatever was written before. -/
theorem lastColumn?_append {back : Text} {number : Nat} (h : back.lastColumn? = some number)
    (front : Text) : lastColumn? (front ++ back) = some number := by
  induction front with
  | nil => exact h
  | cons c front ih =>
    rw [List.cons_append, lastColumn?, ih]
    rfl

/-- The command for a number: its decimal digits between the two characters that start a command
and a `G`. -/
theorem controlSequence_digits (number : Nat) :
    controlSequence (toString number ++ "G") =
      escape :: '[' :: (Nat.toDigits 10 number ++ ['G']) := by
  rw [controlSequence, String.toList_append, Nat.toString_eq_repr, Nat.toList_repr]
  rfl

/-- The command for a number is read back. -/
theorem columnAt?_controlSequence (number : Nat) :
    columnAt? (controlSequence (toString number ++ "G")) = some number := by
  have hdigits : ∀ c ∈ Nat.toDigits 10 number, c.isDigit = true := fun c hc =>
    Nat.isDigit_of_mem_toDigits (by decide) (by decide) hc
  have htake : (Nat.toDigits 10 number ++ ['G']).takeWhile Char.isDigit =
      Nat.toDigits 10 number := by
    rw [List.takeWhile_append_of_pos hdigits]
    exact List.append_nil _
  have hdrop : (Nat.toDigits 10 number ++ ['G']).dropWhile Char.isDigit = ['G'] :=
    List.dropWhile_append_of_pos hdigits
  rw [controlSequence_digits, columnAt?, htake, hdrop,
    if_pos ⟨rfl, Nat.toDigits_ne_nil, rfl⟩, Nat.ofDigitChars_toDigits (by decide) (by decide)]

/-- Behind its first character a command contains no escape, so that nothing in it starts another
command. -/
theorem lastColumn?_controlSequence (number : Nat) :
    lastColumn? (controlSequence (toString number ++ "G")) = some number := by
  have htail : escape ∉ '[' :: (Nat.toDigits 10 number ++ ['G']) := by
    intro hmem
    rcases List.mem_cons.mp hmem with hfirst | hmem
    · exact absurd hfirst (by decide)
    rcases List.mem_append.mp hmem with hdigit | hlast
    · have := Nat.isDigit_of_mem_toDigits (by decide) (by decide) hdigit
      exact absurd this (by decide)
    · exact absurd (List.mem_singleton.mp hlast) (by decide)
  have hread := columnAt?_controlSequence number
  rw [controlSequence_digits] at hread ⊢
  rw [lastColumn?, lastColumn?_eq_none htail, hread]
  rfl

/-- **The command that is written last is the one that is read**, whatever stands before it. -/
theorem lastColumn?_append_cursorTo (front : Text) (column : UInt16) :
    lastColumn? (front ++ (cursorTo column).value) = some (column + 1).toNat :=
  lastColumn?_append (lastColumn?_controlSequence (column + 1).toNat) front

end Text

/-! ## The number of a column -/

theorem toNat_columnWord (column : Nat) : (columnWord column).toNat = min column 65535 :=
  UInt16.toNat_ofNat_of_lt' (Nat.lt_of_le_of_lt (Nat.min_le_right _ _) (by decide))

/-- The word for a column has a next one exactly if it is not the largest word.  A machine that goes
on all the same comes to zero. -/
theorem next_columnWord (column : Nat) :
    (columnWord column + 1).toNat = (if column < 65535 then column + 1 else 0) ∧
      (Machine.next (columnWord column)).fault =
        if column < 65535 then none else some .overflow := by
  have hword := toNat_columnWord column
  have hvalue : (columnWord column + 1).toNat = ((columnWord column).toNat + 1) % 65536 :=
    UInt16.toNat_add _ _
  have hfault : (Machine.next (columnWord column)).fault =
      if (columnWord column).toNat + 1 < 65536 then none else some .overflow := rfl
  rw [hvalue, hfault, hword]
  rcases Nat.lt_or_ge column 65535 with hlt | hge
  · have hsum : column + 1 < 65536 := Nat.succ_lt_succ hlt
    rw [Nat.min_eq_left (Nat.le_of_lt hlt), if_pos hlt, if_pos hlt, if_pos hsum]
    exact ⟨Nat.mod_eq_of_lt hsum, rfl⟩
  · rw [Nat.min_eq_right hge, if_neg (Nat.not_lt.mpr hge), if_neg (Nat.not_lt.mpr hge)]
    exact ⟨rfl, rfl⟩

theorem lastColumn?_drawAt (text : Text) (column : Nat) :
    (drawAt text column).value.lastColumn? = some (if column < 65535 then column + 1 else 0) := by
  have hvalue : (drawAt text column).value =
      (cursorTo 0).value ++ controlSequence "K" ++ text ++ (cursorTo (columnWord column)).value :=
    rfl
  rw [hvalue, Text.lastColumn?_append_cursorTo, (next_columnWord column).1]

/-- The first column has a number, so it is the second command that decides. -/
theorem fault_drawAt (text : Text) (column : Nat) :
    (drawAt text column).fault = if column < 65535 then none else some .overflow := by
  have hfault : (drawAt text column).fault =
      ((Machine.next (columnWord column)).fault.or none).or none := rfl
  rw [hfault, Option.or_none, Option.or_none, (next_columnWord column).2]

namespace Request

/-! ## Where the cursor belongs -/

/-- The column, counted from zero, in which a request is to leave the cursor. -/
def column? (prompt : Text) : Request → Option Nat
  | line _ cursor _ => some (prompt.length + cursor)
  | banner b => some b.cursor
  | _ => none

/-- A terminal can be told where a request leaves the cursor, if it leaves it anywhere. -/
def Addressable (prompt : Text) (request : Request) : Prop :=
  ∀ column ∈ request.column? prompt, column < 65535

/-- A request leaves the cursor in a column.  No sum that is taken for it is too large, and the last
command for the cursor has the number of the column, counted from one. -/
structure Aligned (prompt : Text) (request : Request) (column : Nat) : Prop where
  sums : (request.render prompt).fault = none
  number : (request.render prompt).value.lastColumn? = some (column + 1)

variable {prompt : Text} {request : Request} {column : Nat}

/-- A request that leaves the cursor in a column draws a text and nothing else. -/
theorem exists_drawAt (h : request.column? prompt = some column) :
    ∃ text, request.render prompt = drawAt text column := by
  cases request with
  | line text cursor masked =>
    cases h
    exact ⟨_, rfl⟩
  | banner b =>
    cases h
    exact ⟨_, rfl⟩
  | bell style => cases h
  | clearScreen => cases h
  | newLine => cases h

theorem lastColumn?_render (h : request.column? prompt = some column) :
    (request.render prompt).value.lastColumn? =
      some (if column < 65535 then column + 1 else 0) := by
  obtain ⟨text, hrender⟩ := exists_drawAt h
  rw [hrender, lastColumn?_drawAt]

theorem fault_render (h : request.column? prompt = some column) :
    (request.render prompt).fault = if column < 65535 then none else some .overflow := by
  obtain ⟨text, hrender⟩ := exists_drawAt h
  rw [hrender, fault_drawAt]

/-- **No request is a fault but one that leaves the cursor too far out.** -/
theorem fault_render_eq_none_iff (prompt : Text) (request : Request) :
    (request.render prompt).fault = none ↔ request.Addressable prompt := by
  rw [Addressable]
  cases hcolumn : request.column? prompt with
  | some column =>
    rw [fault_render hcolumn]
    by_cases hlt : column < 65535 <;> simp [hlt]
  | none =>
    refine iff_of_true ?_ (fun _ h => by cases h)
    cases request with
    | line text cursor masked => cases hcolumn
    | banner b => cases hcolumn
    | bell style => cases style <;> rfl
    | clearScreen => rfl
    | newLine => rfl

/-- **In which columns the cursor is put where it belongs**: in those before 65535, and in no other.
For the others the sum overflows.  A machine that checks its sums draws nothing then, and one that
does not tells the terminal to put the cursor in column zero.  So the number of the column does not
get smaller when the cursor goes on to the right, unless it is at this limit that the cursor goes
on. -/
theorem aligned_iff (h : request.column? prompt = some column) :
    (request.Aligned prompt column ↔ column < 65535) ∧
      (65535 ≤ column → (request.render prompt).checked = .error .overflow ∧
        (request.render prompt).value.lastColumn? = some 0) ∧
      ∀ (prompt' : Text) (further : Request) (column' : Nat),
        further.column? prompt' = some column' → column ≤ column' →
        ∃ number number', (request.render prompt).value.lastColumn? = some number ∧
          (further.render prompt').value.lastColumn? = some number' ∧
          (number ≤ number' ↔ column' < 65535 ∨ 65535 ≤ column) := by
  have hnumber := lastColumn?_render h
  have hfault := fault_render h
  refine ⟨⟨fun haligned => ?_, fun hlt => ⟨?_, ?_⟩⟩, fun hge => ⟨?_, ?_⟩, ?_⟩
  · refine Nat.lt_of_not_le fun hge => ?_
    rw [haligned.sums, if_neg (Nat.not_lt.mpr hge)] at hfault
    cases hfault
  · rw [hfault, if_pos hlt]
  · rw [hnumber, if_pos hlt]
  · rw [Computed.checked, hfault, if_neg (Nat.not_lt.mpr hge)]
  · rw [hnumber, if_neg (Nat.not_lt.mpr hge)]
  · intro prompt' further column' hfurther hle
    refine ⟨_, _, hnumber, lastColumn?_render hfurther, ?_⟩
    split <;> split <;> omega

/-- The cursor is put behind a password of two characters, and a banner that has it in the last
column with a number is sent farther to the right. -/
theorem aligned_password :
    let prompt : Text := ['>', ' ']
    let request : Request := .line ['p', 'w'] 2 true
    let further : Request := .banner ⟨[], 65534⟩
    request.column? prompt = some 4 ∧ request.Aligned prompt 4 ∧
      further.column? prompt = some 65534 ∧
      ∃ number number', (request.render prompt).value.lastColumn? = some number ∧
        (further.render prompt).value.lastColumn? = some number' ∧ number ≤ number' := by
  intro prompt request further
  have hrequest : request.column? prompt = some 4 := rfl
  have hfurther : further.column? prompt = some 65534 := rfl
  have hall := aligned_iff hrequest
  obtain ⟨number, number', hnumber, hnumber', hle⟩ :=
    hall.2.2 prompt further 65534 hfurther (by decide)
  exact ⟨hrequest, hall.1.mpr (by decide), hfurther, number, number', hnumber, hnumber',
    hle.mpr (.inl (by decide))⟩

/-- Before the last of 65535 characters the cursor is sent to the number 65535.  Behind it the sum
overflows, and a machine that does not check it comes to zero; and so it is for a banner that has
its cursor as far out. -/
theorem overflow_long_line :
    let text : Text := List.replicate 65535 'a'
    let beforeLast : Request := .line text (text.length - 1) false
    let atEnd : Request := .line text text.length false
    let banner : Request := .banner ⟨[], 65535⟩
    beforeLast.Aligned [] 65534 ∧
      (atEnd.render []).checked = .error .overflow ∧
      (atEnd.render []).value.lastColumn? = some 0 ∧
      (banner.render []).checked = .error .overflow ∧
      (banner.render []).value.lastColumn? = some 0 := by
  intro text beforeLast atEnd banner
  have hlength : text.length = 65535 := List.length_replicate
  have hbeforeLast : beforeLast.column? [] = some 65534 := by
    simp [beforeLast, column?, hlength]
  have hatEnd : atEnd.column? [] = some 65535 := by
    simp [atEnd, column?, hlength]
  have hbanner : banner.column? [] = some 65535 := rfl
  have hchecked {request : Request} (h : request.column? [] = some 65535) :
      (request.render []).checked = .error .overflow := by
    rw [Computed.checked, fault_render h]
    rfl
  exact ⟨⟨fault_render hbeforeLast, lastColumn?_render hbeforeLast⟩, hchecked hatEnd,
    lastColumn?_render hatEnd, hchecked hbanner, lastColumn?_render hbanner⟩

end Request

end PromptLine
