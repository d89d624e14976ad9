import Mathlib.Order.Bounds.Basic
import PromptLine.Proofs.Line.Motions

/-!
# Words, and where motions find them

A motion by words counts its way over blanks and over runs of characters.  What it is meant to find
can be said without counting: the next position at which a word starts, or ends, and where there is
no such position an end of the line.

A word starts at a character that is no blank and that the character before it does not continue;
where it ends is the mirror image of that.  All six motions read words in this way.  They differ in
what they take for a blank and in which characters go together, and this is a matter of a `classify`
that gives each character its class.  To the plain motions whatever is not alphanumeric is a blank.

Two spans do all the work.  `behindWord` leads over the next word of a text, which is `target` for
half of the motions, and for the other half, the text being read backwards, the mirror image of it.
-/

namespace PromptLine

/-- What a character is to the plain word motions. -/
def CharClass.plain (c : Char) : CharClass := if Unicode.isAlphanumeric c then .word else .blank

theorem CharClass.plain_eq_blank (c : Char) :
    (CharClass.plain c == .blank) = !Unicode.isAlphanumeric c := by
  rw [plain]
  cases Unicode.isAlphanumeric c <;> rfl

theorem CharClass.plain_eq_word (c : Char) :
    (CharClass.plain c == .word) = Unicode.isAlphanumeric c := by
  rw [plain]
  cases Unicode.isAlphanumeric c <;> rfl

namespace Text

/-! ## Starts and ends -/

/-- The class of the character at a position, if there is one. -/
def classAt (classify : Char → CharClass) (text : Text) (position : Nat) : Option CharClass :=
  text[position]?.map classify

/-- The character at a position is there, and is no blank. -/
def IsSolid (classify : Char → CharClass) (line : Text) (position : Nat) : Prop :=
  ∃ kind, kind ≠ .blank ∧ line.classAt classify position = some kind

/-- A word starts at a position: the character there is no blank, and the one before it is absent or
of another class. -/
def StartsWord (classify : Char → CharClass) (line : Text) (position : Nat) : Prop :=
  ∃ kind, kind ≠ .blank ∧ line.classAt classify position = some kind ∧
    (0 < position → line.classAt classify (position - 1) ≠ some kind)

/-- A word ends with the character at a position: it is no blank, and the one behind it is absent or
of another class. -/
def EndsWord (classify : Char → CharClass) (line : Text) (position : Nat) : Prop :=
  ∃ kind, kind ≠ .blank ∧ line.classAt classify position = some kind ∧
    line.classAt classify (position + 1) ≠ some kind

/-- The characters from one position up to another are of one class, which is not blank, and the
next one is not of that class. -/
def RunsUpTo (classify : Char → CharClass) (line : Text) (first last : Nat) : Prop :=
  ∃ kind, kind ≠ .blank ∧ first < last ∧
    (∀ i, first ≤ i → i < last → line.classAt classify i = some kind) ∧
      line.classAt classify last ≠ some kind

variable {classify : Char → CharClass} {line : Text} {i here : Nat} {kind : CharClass}

theorem lt_length_of_classAt (h : line.classAt classify i = some kind) : i < line.length := by
  obtain ⟨c, hc, -⟩ := Option.map_eq_some_iff.mp h
  exact (List.getElem?_eq_some_iff.mp hc).1

theorem IsSolid.lt_length (h : line.IsSolid classify i) : i < line.length := by
  obtain ⟨kind, -, hclass⟩ := h
  exact lt_length_of_classAt hclass

theorem IsSolid.ne_blank (h : line.IsSolid classify i) :
    line.classAt classify i ≠ some .blank := by
  obtain ⟨kind, hkind, hclass⟩ := h
  exact fun hblank => hkind (Option.some.inj (hclass.symm.trans hblank))

theorem StartsWord.isSolid (h : line.StartsWord classify i) : line.IsSolid classify i := by
  obtain ⟨kind, hkind, hclass, -⟩ := h
  exact ⟨kind, hkind, hclass⟩

theorem EndsWord.isSolid (h : line.EndsWord classify i) : line.IsSolid classify i := by
  obtain ⟨kind, hkind, hclass, -⟩ := h
  exact ⟨kind, hkind, hclass⟩

theorem classAt_eq_none (h : line.length ≤ i) : line.classAt classify i = none := by
  rw [classAt, List.getElem?_eq_none h]
  rfl

theorem classAt_drop : classAt classify (line.drop here) i = line.classAt classify (here + i) := by
  rw [classAt, List.getElem?_drop]
  rfl

/-- The text before a position, read backwards. -/
theorem classAt_reverse_take (hhere : here ≤ line.length) (hi : i < here) :
    classAt classify (line.take here).reverse i = line.classAt classify (here - 1 - i) := by
  have hlength : (line.take here).length = here := List.length_take_of_le hhere
  rw [classAt, List.getElem?_reverse (by omega), hlength, List.getElem?_take_of_lt (by omega)]
  rfl

theorem endsWord_drop :
    EndsWord classify (line.drop here) i ↔ line.EndsWord classify (here + i) := by
  rw [EndsWord, EndsWord, classAt_drop, classAt_drop, Nat.add_assoc]

theorem startsWord_drop (hi : 0 < i) :
    StartsWord classify (line.drop here) i ↔ line.StartsWord classify (here + i) := by
  have hpos : 0 < here + i := by omega
  rw [StartsWord, StartsWord, classAt_drop, classAt_drop, Nat.add_sub_assoc hi]
  simp only [hi, hpos]

theorem runsUpTo_drop {first last : Nat} :
    RunsUpTo classify (line.drop here) first last ↔
      line.RunsUpTo classify (here + first) (here + last) := by
  constructor
  · rintro ⟨kind, hkind, hproper, hrun, hnext⟩
    refine ⟨kind, hkind, by omega, fun i hi hlast => ?_, classAt_drop ▸ hnext⟩
    obtain ⟨j, rfl⟩ := Nat.exists_eq_add_of_le (Nat.le_trans (Nat.le_add_right here first) hi)
    rw [← classAt_drop]
    exact hrun j (by omega) (by omega)
  · rintro ⟨kind, hkind, hproper, hrun, hnext⟩
    refine ⟨kind, hkind, by omega, fun i hi hlast => ?_, classAt_drop ▸ hnext⟩
    rw [classAt_drop]
    exact hrun (here + i) (by omega) (by omega)

/-- Read backwards, words end where they start. -/
theorem endsWord_reverse_take (hhere : here ≤ line.length) (hi : i < here) :
    EndsWord classify (line.take here).reverse i ↔
      line.StartsWord classify (here - 1 - i) := by
  rw [EndsWord, StartsWord, classAt_reverse_take hhere hi]
  rcases Nat.lt_or_ge (i + 1) here with hnext | hlast
  · have hpos : 0 < here - 1 - i := by omega
    rw [classAt_reverse_take hhere hnext, Nat.sub_add_eq]
    simp only [hpos, forall_const]
  · have hzero : ¬0 < here - 1 - i := by omega
    have hlength : (line.take here).reverse.length ≤ i + 1 := by
      rw [List.length_reverse, List.length_take_of_le hhere]
      exact hlast
    rw [classAt_eq_none hlength]
    simp only [hzero, false_imp_iff, ne_eq, reduceCtorEq, not_false_eq_true]

end Text

namespace Motion

open Text

variable {classify : Char → CharClass} {text line : Text} {i here : Nat}

/-! ## Runs -/

/-- The characters of a class at the front of a text. -/
theorem classAt_of_lt_run {kind : CharClass} (h : i < run (fun c => classify c == kind) text) :
    text.classAt classify i = some kind := by
  induction text generalizing i with
  | nil => exact absurd h (Nat.not_lt_zero i)
  | cons c rest ih =>
    rw [run_cons] at h
    split at h
    · next hkind =>
      cases i with
      | zero => exact congrArg some (eq_of_beq hkind)
      | succ i => exact ih (Nat.lt_of_succ_lt_succ h)
    · exact absurd h (Nat.not_lt_zero i)

/-- Behind them there is none of that class. -/
theorem classAt_run_ne (classify : Char → CharClass) (kind : CharClass) (text : Text) :
    text.classAt classify (run (fun c => classify c == kind) text) ≠ some kind := by
  induction text with
  | nil => exact (Option.some_ne_none kind).symm
  | cons c rest ih =>
    rw [run_cons]
    split
    · exact ih
    · next hkind => exact fun hclass => hkind (beq_iff_eq.mpr (Option.some.inj hclass))

/-- How many characters at the front share the class of the first. -/
def sameRun (classify : Char → CharClass) (text : Text) : Nat :=
  match text with
  | [] => 0
  | c :: _ => run (fun d => classify d == classify c) text

theorem sameRun_eq {kind : CharClass} (h : text.classAt classify 0 = some kind) :
    sameRun classify text = run (fun c => classify c == kind) text := by
  cases text with
  | nil => cases h
  | cons c rest =>
    obtain rfl : classify c = kind := Option.some.inj h
    rfl

/-- **A run at the front of a text**, of characters that are not blank. -/
theorem runsUpTo_sameRun {kind : CharClass} (h : text.classAt classify 0 = some kind)
    (hkind : kind ≠ .blank) : RunsUpTo classify text 0 (sameRun classify text) := by
  have hbehind := classAt_run_ne classify kind text
  rw [sameRun_eq h]
  refine ⟨kind, hkind, Nat.pos_of_ne_zero fun hzero => ?_, fun i _ => classAt_of_lt_run, hbehind⟩
  rw [hzero] at hbehind
  exact hbehind h

/-! ## Over the next word -/

/-- How many blanks are at the front. -/
def gap (classify : Char → CharClass) (text : Text) : Nat :=
  run (fun c => classify c == .blank) text

/-- From a position on, all of a gap is blank. -/
theorem classAt_of_lt_gap (hhere : here ≤ i) (hgap : i < here + gap classify (text.drop here)) :
    text.classAt classify i = some .blank := by
  obtain ⟨j, rfl⟩ := Nat.exists_eq_add_of_le hhere
  rw [← classAt_drop]
  exact classAt_of_lt_run (Nat.lt_of_add_lt_add_left hgap)

/-- Over the blanks and the word behind them. -/
def behindWord (classify : Char → CharClass) (text : Text) : Nat :=
  gap classify text + sameRun classify (text.drop (gap classify text))

theorem changeWordSpan_eq (big : Bool) (text : Text) :
    changeWordSpan big text = behindWord (.of big) text := rfl

theorem wordSpan_eq (text : Text) : wordSpan text = behindWord .plain text := by
  have hgap : gap .plain text = run (fun c => !Unicode.isAlphanumeric c) text := by
    rw [gap, funext CharClass.plain_eq_blank]
  rw [behindWord, hgap, wordSpan]
  cases hrest : text.drop (run (fun c => !Unicode.isAlphanumeric c) text) with
  | nil => rfl
  | cons c rest =>
    have hword : CharClass.plain c = .word := by
      have hclass := classAt_run_ne .plain .blank text
      rw [← gap, hgap, ← Nat.add_zero (run _ _), ← classAt_drop, hrest] at hclass
      have hne : CharClass.plain c ≠ .blank := fun hblank => hclass (congrArg some hblank)
      revert hne
      rw [CharClass.plain]
      split
      · exact fun _ => rfl
      · exact fun hne => absurd rfl hne
    rw [sameRun, hword, funext CharClass.plain_eq_word]

/-- **The next word of a text**, with the blanks in front of it.  A text without one is blank. -/
theorem runsUpTo_behindWord (classify : Char → CharClass) (text : Text) :
    RunsUpTo classify text (gap classify text) (behindWord classify text) ∨
      gap classify text = text.length ∧ behindWord classify text = text.length := by
  have hlength : gap classify text ≤ text.length := run_le_length _ _
  have hclass := classAt_run_ne classify .blank text
  rcases Nat.eq_or_lt_of_le hlength with hall | hword
  · refine .inr ⟨hall, ?_⟩
    rw [behindWord, hall, List.drop_length]
    rfl
  · left
    have hfirst : classAt classify (text.drop (gap classify text)) 0 =
        some (classify text[gap classify text]) := by
      rw [classAt_drop, Nat.add_zero, classAt, List.getElem?_eq_getElem hword]
      rfl
    have hsolid : classify text[gap classify text] ≠ .blank := by
      rw [classAt_drop, Nat.add_zero] at hfirst
      intro hblank
      exact hclass (hfirst.trans (congrArg some hblank))
    have hword := runsUpTo_drop.mp (runsUpTo_sameRun hfirst hsolid)
    rwa [Nat.add_zero] at hword

/-! ## What a motion finds -/

/-- The first position of a set, or another one where the set is empty. -/
def FirstOr (positions : Set Nat) (otherwise target : Nat) : Prop :=
  IsLeast positions target ∨ positions = ∅ ∧ target = otherwise

/-- The last position of a set, or another one where the set is empty. -/
def LastOr (positions : Set Nat) (otherwise target : Nat) : Prop :=
  IsGreatest positions target ∨ positions = ∅ ∧ target = otherwise

section Found

variable {positions : Set Nat} {otherwise target : Nat} {found there : Nat → Prop}

/-- Counted from another position on. -/
theorem FirstOr.shift (h : FirstOr {i | 0 < i ∧ found i} otherwise target)
    (hthere : ∀ i, 0 < i → (there (here + i) ↔ found i)) :
    FirstOr {i | here < i ∧ there i} (here + otherwise) (here + target) := by
  rcases h with ⟨⟨hpos, hfound⟩, hleast⟩ | ⟨hempty, rfl⟩
  · refine .inl ⟨⟨Nat.lt_add_of_pos_right hpos, (hthere target hpos).mpr hfound⟩, ?_⟩
    rintro i ⟨hi, hiThere⟩
    obtain ⟨j, rfl⟩ := Nat.exists_eq_add_of_le (Nat.le_of_lt hi)
    have hj : 0 < j := Nat.pos_of_lt_add_right hi
    exact Nat.add_le_add_left (hleast ⟨hj, (hthere j hj).mp hiThere⟩) here
  · refine .inr ⟨Set.eq_empty_of_forall_notMem ?_, rfl⟩
    rintro i ⟨hi, hiThere⟩
    obtain ⟨j, rfl⟩ := Nat.exists_eq_add_of_le (Nat.le_of_lt hi)
    have hj : 0 < j := Nat.pos_of_lt_add_right hi
    exact (hempty ▸ Set.notMem_empty j) ⟨hj, (hthere j hj).mp hiThere⟩

/-- Counted back from a position, up to the start of the line. -/
theorem FirstOr.mirror (h : FirstOr {i | 0 < i ∧ found i} here target)
    (hbound : ∀ i, found i → i ≤ here)
    (hthere : ∀ i, 0 < i → i ≤ here → (there (here - i) ↔ found i)) :
    LastOr {i | i < here ∧ there i} 0 (here - target) := by
  -- what is found at a position is as far from here the other way
  have hback (i : Nat) (hi : i < here) (hiThere : there i) : 0 < here - i ∧ found (here - i) := by
    have hpos : 0 < here - i := Nat.sub_pos_of_lt hi
    refine ⟨hpos, (hthere (here - i) hpos (Nat.sub_le _ _)).mp ?_⟩
    rwa [Nat.sub_sub_self (Nat.le_of_lt hi)]
  rcases h with ⟨⟨hpos, hfound⟩, hleast⟩ | ⟨hempty, rfl⟩
  · have hle := hbound target hfound
    refine .inl ⟨⟨by omega, (hthere target hpos hle).mpr hfound⟩, ?_⟩
    rintro i ⟨hi, hiThere⟩
    have hfirst := hleast (hback i hi hiThere)
    omega
  · refine .inr ⟨Set.eq_empty_of_forall_notMem ?_, Nat.sub_self _⟩
    rintro i ⟨hi, hiThere⟩
    exact (hempty ▸ Set.notMem_empty _) (hback i hi hiThere)

/-- It is an advance to find what is ahead. -/
theorem FirstOr.advances (h : FirstOr positions otherwise target)
    (hpositions : ∀ i ∈ positions, here < i) (hotherwise : here ≤ otherwise) :
    here ≤ target ∧ (here < otherwise → here < target) := by
  rcases h with ⟨hmem, -⟩ | ⟨-, rfl⟩
  · have hlt := hpositions target hmem
    exact ⟨Nat.le_of_lt hlt, fun _ => hlt⟩
  · exact ⟨hotherwise, id⟩

theorem LastOr.retreats (h : LastOr positions 0 target) (hpositions : ∀ i ∈ positions, i < here) :
    target ≤ here ∧ (0 < here → target < here) := by
  rcases h with ⟨hmem, -⟩ | ⟨-, rfl⟩
  · have hlt := hpositions target hmem
    exact ⟨Nat.le_of_lt hlt, fun _ => hlt⟩
  · exact ⟨Nat.zero_le here, id⟩

end Found

/-! ### Ends of words -/

/-- **Over the next word of a text** is right behind the first character with which a word ends. -/
theorem firstOr_behindWord (classify : Char → CharClass) (text : Text) :
    FirstOr {i | 0 < i ∧ text.EndsWord classify (i - 1)} text.length
      (behindWord classify text) := by
  have hblank : ∀ i < gap classify text, text.classAt classify i = some .blank :=
    fun _ => classAt_of_lt_run
  rcases runsUpTo_behindWord classify text with ⟨kind, hkind, hproper, hrun, hnext⟩ | ⟨hgap, hall⟩
  · have hpos : 0 < behindWord classify text := Nat.zero_lt_of_lt hproper
    refine .inl ⟨⟨hpos, kind, hkind, hrun _ (by omega) (by omega), ?_⟩, ?_⟩
    · rwa [Nat.sub_add_cancel hpos]
    · -- before that there are blanks, and characters that the next one continues
      rintro i ⟨hi, hends⟩
      by_contra hearlier
      rcases Nat.lt_or_ge (i - 1) (gap classify text) with hgap | hword
      · exact hends.isSolid.ne_blank (hblank _ hgap)
      · obtain ⟨other, -, hlast, hbehind⟩ := hends
        have hsame := Option.some.inj (hlast.symm.trans (hrun _ hword (by omega)))
        exact hbehind (hsame ▸ hrun _ (by omega) (by omega))
  · refine .inr ⟨Set.eq_empty_of_forall_notMem ?_, hall⟩
    rintro i ⟨-, hends⟩
    exact hends.isSolid.ne_blank (hblank _ (hgap ▸ hends.isSolid.lt_length))

/-- The same from a position of a line on. -/
theorem firstOr_endsWord (classify : Char → CharClass) (hhere : here ≤ line.length) :
    FirstOr {i | here < i ∧ line.EndsWord classify (i - 1)} line.length
      (here + behindWord classify (line.drop here)) := by
  have hends (i : Nat) (hi : 0 < i) :
      line.EndsWord classify (here + i - 1) ↔ EndsWord classify (line.drop here) (i - 1) := by
    rw [endsWord_drop, Nat.add_sub_assoc hi]
  have hahead : FirstOr {i | here < i ∧ line.EndsWord classify (i - 1)} _ _ :=
    (firstOr_behindWord classify (line.drop here)).shift hends
  rwa [List.length_drop, Nat.add_sub_cancel' hhere] at hahead

/-- Back over the word before a position of a line is where a word starts. -/
theorem lastOr_startsWord (classify : Char → CharClass) (hhere : here ≤ line.length) :
    LastOr {i | i < here ∧ line.StartsWord classify i} 0
      (here - behindWord classify (line.take here).reverse) := by
  have hlength : (line.take here).reverse.length = here := by
    rw [List.length_reverse, List.length_take_of_le hhere]
  have hfirst := firstOr_behindWord classify (line.take here).reverse
  rw [hlength] at hfirst
  refine hfirst.mirror (fun i hends => ?_) fun i hi hle => ?_
  · have hthere := hlength ▸ hends.isSolid.lt_length
    omega
  · have hsub : here - 1 - (i - 1) = here - i := by omega
    rw [endsWord_reverse_take hhere (by omega), hsub]

/-! ### The next start of a word -/

/-- Over the blanks behind a position up to which no word starts, and which ends a word, is the next
character with which a word starts. -/
theorem firstOr_behind_gap {word : Nat} (hword : word ≤ text.length)
    (hinside : ∀ i, 0 < i → i < word → ¬text.StartsWord classify i)
    (hends : ∀ kind, 0 < word → text.classAt classify (word - 1) = some kind →
      text.classAt classify word ≠ some kind)
    (hpos : 0 < word + gap classify (text.drop word)) :
    FirstOr {i | 0 < i ∧ text.StartsWord classify i} text.length
      (word + gap classify (text.drop word)) := by
  have hlength : word + gap classify (text.drop word) ≤ text.length :=
    add_le_length hword (run_le_length _ _)
  have hblank : ∀ i, word ≤ i → i < word + gap classify (text.drop word) →
      text.classAt classify i = some .blank := fun _ => classAt_of_lt_gap
  have hsolid : text.classAt classify (word + gap classify (text.drop word)) ≠ some .blank := by
    rw [← classAt_drop]
    exact classAt_run_ne classify .blank _
  have hfrom : word ≤ word + gap classify (text.drop word) := Nat.le_add_right _ _
  generalize word + gap classify (text.drop word) = target at *
  have hnone : ∀ i, 0 < i → i < target → ¬text.StartsWord classify i := by
    intro i hi hbefore hstarts
    rcases Nat.lt_or_ge i word with hwithin | hgap
    · exact hinside i hi hwithin hstarts
    · exact hstarts.isSolid.ne_blank (hblank i hgap hbefore)
  rcases Nat.eq_or_lt_of_le hlength with hall | hthere
  · refine .inr ⟨Set.eq_empty_of_forall_notMem ?_, hall⟩
    rintro i ⟨hi, hstarts⟩
    exact hnone i hi (hall ▸ hstarts.isSolid.lt_length) hstarts
  · have hclass : text.classAt classify target = some (classify text[target]) := by
      rw [classAt, List.getElem?_eq_getElem hthere]
      rfl
    refine .inl ⟨⟨hpos, _, fun hkind => hsolid (hkind ▸ hclass), hclass, fun _ hbefore => ?_⟩,
      fun i hi => Nat.le_of_not_lt fun hlt => hnone i hi.1 hlt hi.2⟩
    rcases Nat.eq_or_lt_of_le hfrom with rfl | hgap
    · exact hends _ hpos hbefore hclass
    · have hkind := (hblank (target - 1) (by omega) (by omega)).symm.trans hbefore
      exact hsolid (hclass.trans hkind.symm)

/-- **Over the word at the front of a text, and the blanks behind it**, is the next character with
which a word starts. -/
theorem firstOr_nextWordSpan (big : Bool) (text : Text) :
    FirstOr {i | 0 < i ∧ text.StartsWord (.of big) i} text.length (nextWordSpan big text) := by
  cases text with
  | nil =>
    refine .inr ⟨Set.eq_empty_of_forall_notMem ?_, rfl⟩
    rintro i ⟨-, hstarts⟩
    exact absurd hstarts.isSolid.lt_length (Nat.not_lt_zero i)
  | cons c rest =>
    have hfirst : classAt (.of big) (c :: rest) 0 = some (.of big c) := rfl
    by_cases hblank : CharClass.of big c = .blank
    · have hspan : nextWordSpan big (c :: rest) = 0 + gap (.of big) ((c :: rest).drop 0) := by
        rw [nextWordSpan, List.head?_cons, Option.map_some, hblank, if_pos rfl]
        rfl
      rw [hspan]
      refine firstOr_behind_gap (Nat.zero_le _) (fun i _ hi => absurd hi (Nat.not_lt_zero i))
        (fun _ hi => absurd hi (Nat.lt_irrefl 0)) ?_
      rw [List.drop_zero, gap, run_cons, hblank]
      exact Nat.zero_lt_succ _
    · obtain ⟨kind, hkind, hpos, hrun, hnext⟩ := runsUpTo_sameRun hfirst hblank
      have hspan : nextWordSpan big (c :: rest) = sameRun (.of big) (c :: rest) +
          gap (.of big) ((c :: rest).drop (sameRun (.of big) (c :: rest))) := by
        have hhead : some (CharClass.of big c) ≠ some .blank := fun h => hblank (Option.some.inj h)
        rw [nextWordSpan, List.head?_cons, Option.map_some, if_neg hhead]
        rfl
      rw [hspan]
      refine firstOr_behind_gap (classRun_le_length big (c :: rest)) ?_ ?_ (Nat.add_pos_left hpos _)
      · -- inside of the word each character continues the one before
        rintro i hi hwithin ⟨other, -, hclass, hbefore⟩
        have hsame := Option.some.inj (hclass.symm.trans (hrun i (Nat.zero_le i) hwithin))
        exact hbefore hi (hsame ▸ hrun (i - 1) (Nat.zero_le _) (by omega))
      · intro other _ hlast
        have hsame := Option.some.inj (hlast.symm.trans (hrun _ (Nat.zero_le _) (by omega)))
        exact hsame ▸ hnext

/-- The same from a position of a line on. -/
theorem firstOr_startsWord (big : Bool) (hhere : here ≤ line.length) :
    FirstOr {i | here < i ∧ line.StartsWord (.of big) i} line.length
      (here + nextWordSpan big (line.drop here)) := by
  have hahead := (firstOr_nextWordSpan big (line.drop here)).shift
    fun _ hi => (startsWord_drop hi).symm
  rwa [List.length_drop, Nat.add_sub_cancel' hhere] at hahead

/-! ### All motions by words -/

/-- To the last character of the next word is one character less than over it. -/
theorem wordEndSpan_eq (big : Bool) (text : Text) :
    wordEndSpan big text = behindWord (.of big) text - 1 := by
  have hgap : blankRun big text = gap (.of big) text := rfl
  have hlength : gap (.of big) text ≤ text.length := run_le_length _ _
  rw [wordEndSpan, hgap]
  rcases runsUpTo_behindWord (.of big) text with ⟨-, -, hproper, -⟩ | ⟨hall, hbehind⟩
  · have hmin : min (gap (.of big) text) (text.length - 1) = gap (.of big) text := by
      have hwithin : behindWord (.of big) text ≤ text.length :=
        add_le_length hlength (classRun_le_length _ _)
      omega
    rw [hmin]
    show gap (.of big) text + (sameRun (.of big) (text.drop (gap (.of big) text)) - 1) = _
    rw [behindWord] at hproper ⊢
    omega
  · -- among blanks only the span is cut short on the last one
    have hrun := classRun_le_length big (text.drop (text.length - 1))
    rw [List.length_drop] at hrun
    rw [hall, hbehind, Nat.min_eq_right (Nat.sub_le _ 1)]
    omega

/-- The run at a position, or behind the blanks there. -/
theorem runsUpTo_changeWordSpan (big : Bool) (hhere : here ≤ line.length) :
    (∃ first, IsLeast {i | here ≤ i ∧ line.IsSolid (.of big) i} first ∧
        line.RunsUpTo (.of big) first (here + changeWordSpan big (line.drop here))) ∨
      {i | here ≤ i ∧ line.IsSolid (.of big) i} = ∅ ∧
        here + changeWordSpan big (line.drop here) = line.length := by
  have hblank : ∀ i, here ≤ i → i < here + gap (.of big) (line.drop here) →
      line.classAt (.of big) i = some .blank := fun _ => classAt_of_lt_gap
  rw [changeWordSpan_eq]
  rcases runsUpTo_behindWord (.of big) (line.drop here) with hword | ⟨hgap, hall⟩
  · rw [runsUpTo_drop] at hword
    refine .inl ⟨_, ⟨⟨Nat.le_add_right _ _, ?_⟩, ?_⟩, hword⟩
    · obtain ⟨kind, hkind, hproper, hrun, -⟩ := hword
      exact ⟨kind, hkind, hrun _ (Nat.le_refl _) hproper⟩
    · rintro i ⟨hi, hsolid⟩
      exact Nat.le_of_not_lt fun hgap => hsolid.ne_blank (hblank i hi hgap)
  · rw [List.length_drop] at hgap hall
    refine .inr ⟨Set.eq_empty_of_forall_notMem ?_, by omega⟩
    rintro i ⟨hi, hsolid⟩
    have hthere := hsolid.lt_length
    exact hsolid.ne_blank (hblank i hi (by omega))

/-- The last character of a word behind a position, or the last character of the line. -/
theorem firstOr_wordEnd (big : Bool) (line : Text) (cursor : Nat) :
    FirstOr {i | min cursor line.length < i ∧ line.EndsWord (.of big) i} (line.length - 1)
      ((wordEnd big).target line cursor) := by
  have hhere : min cursor line.length ≤ line.length := Nat.min_le_right _ _
  rw [target]
  generalize min cursor line.length = here at hhere ⊢
  split
  · next hroom =>
    have hword := firstOr_endsWord (.of big) (Nat.le_of_lt hroom)
    have hpos : 0 < behindWord (.of big) (line.drop (here + 1)) := by
      rcases runsUpTo_behindWord (.of big) (line.drop (here + 1)) with ⟨-, -, hlt, -⟩ | ⟨-, hall⟩
      · exact Nat.zero_lt_of_lt hlt
      · rw [hall, List.length_drop]
        omega
    rw [wordEndSpan_eq, ← Nat.add_sub_assoc hpos]
    generalize here + 1 + behindWord (.of big) (line.drop (here + 1)) = target at hword ⊢
    rcases hword with ⟨⟨hlt, hends⟩, hleast⟩ | ⟨hempty, rfl⟩
    · refine .inl ⟨⟨by omega, hends⟩, fun i hi => ?_⟩
      have hle := hleast (a := i + 1) ⟨Nat.succ_lt_succ hi.1, hi.2⟩
      omega
    · refine .inr ⟨Set.eq_empty_of_forall_notMem fun i hi => ?_, rfl⟩
      exact (hempty ▸ Set.notMem_empty (i + 1)) ⟨Nat.succ_lt_succ hi.1, hi.2⟩
  · next hend =>
    refine .inr ⟨Set.eq_empty_of_forall_notMem ?_, by omega⟩
    rintro i ⟨hi, hends⟩
    have hthere := hends.isSolid.lt_length
    omega

/-- **Where the motions by words lead.**  Each of them leads to the first position ahead, or to the
last one behind, at which a word starts, or ends, or to right behind the end of one; and where there
is no such position, to an end of the line.  To change a word leads to the end of the run that the
cursor is in, or of the next one if the cursor is on a blank.  All of them stay on the line, and all
but one make way unless they start at its end. -/
theorem target_words (line : Text) (cursor : Nat) (big : Bool) :
    let here := min cursor line.length
    FirstOr {i | here < i ∧ line.StartsWord (.of big) i} line.length
        ((nextWord big).target line cursor) ∧
      LastOr {i | i < here ∧ line.StartsWord (.of big) i} 0
        ((previousWord big).target line cursor) ∧
      FirstOr {i | here < i ∧ line.EndsWord (.of big) i} (line.length - 1)
        ((wordEnd big).target line cursor) ∧
      ((∃ first, IsLeast {i | here ≤ i ∧ line.IsSolid (.of big) i} first ∧
          line.RunsUpTo (.of big) first ((changeWord big).target line cursor)) ∨
        {i | here ≤ i ∧ line.IsSolid (.of big) i} = ∅ ∧
          (changeWord big).target line cursor = line.length) ∧
      FirstOr {i | here < i ∧ line.EndsWord .plain (i - 1)} line.length
        (forwardWord.target line cursor) ∧
      LastOr {i | i < here ∧ line.StartsWord .plain i} 0 (backwardWord.target line cursor) ∧
      (∀ motion : Motion, motion.target line cursor ≤ line.length) ∧
      (∀ motion ∈ [forwardWord, nextWord big, changeWord big],
        here ≤ motion.target line cursor ∧
          (here < line.length → here < motion.target line cursor)) ∧
      (here + 1 < line.length → here < (wordEnd big).target line cursor) ∧
      (∀ motion ∈ [backwardWord, previousWord big],
        motion.target line cursor ≤ here ∧ (0 < here → motion.target line cursor < here)) := by
  intro here
  have hhere : here ≤ line.length := Nat.min_le_right _ _
  have hnext : FirstOr {i | here < i ∧ line.StartsWord (.of big) i} line.length
      ((nextWord big).target line cursor) := firstOr_startsWord big hhere
  have hprevious : LastOr {i | i < here ∧ line.StartsWord (.of big) i} 0
      ((previousWord big).target line cursor) := lastOr_startsWord (.of big) hhere
  have hend := firstOr_wordEnd big line cursor
  have hchange := runsUpTo_changeWordSpan big hhere
  have hforward : FirstOr {i | here < i ∧ line.EndsWord .plain (i - 1)} line.length
      (forwardWord.target line cursor) := by
    rw [target, wordSpan_eq]
    exact firstOr_endsWord .plain hhere
  have hbackward : LastOr {i | i < here ∧ line.StartsWord .plain i} 0
      (backwardWord.target line cursor) := by
    rw [target, wordSpan_eq]
    exact lastOr_startsWord .plain hhere
  refine ⟨hnext, hprevious, hend, hchange, hforward, hbackward,
    fun motion => motion.target_le_length line cursor, ?_, ?_, ?_⟩
  · intro motion hmotion
    simp only [List.mem_cons, List.not_mem_nil, or_false] at hmotion
    rcases hmotion with rfl | rfl | rfl
    · exact hforward.advances (fun _ hi => hi.1) hhere
    · exact hnext.advances (fun _ hi => hi.1) hhere
    · rcases hchange with ⟨first, ⟨⟨hfirst, -⟩, -⟩, -, -, hproper, -⟩ | ⟨-, hall⟩
      · have hlt := Nat.lt_of_le_of_lt hfirst hproper
        exact ⟨Nat.le_of_lt hlt, fun _ => hlt⟩
      · exact ⟨Nat.le_trans hhere (Nat.le_of_eq hall.symm), fun hlt => Nat.lt_of_lt_of_eq hlt hall.symm⟩
  · intro hroom
    exact (hend.advances (fun _ hi => hi.1) (by omega)).2 (by omega)
  · intro motion hmotion
    simp only [List.mem_cons, List.not_mem_nil, or_false] at hmotion
    rcases hmotion with rfl | rfl
    · exact hbackward.retreats fun _ hi => hi.1
    · exact hprevious.retreats fun _ hi => hi.1

end Motion

end PromptLine
