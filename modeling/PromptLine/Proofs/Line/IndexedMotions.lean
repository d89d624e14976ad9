import PromptLine.Proofs.Line.PartialOperations

/-!
# Motions by index

Where a motion leads is a matter of counting: how many characters at the front of a text pass a
test.  On an array the counting is done by a loop, which moves a position for as long as the
character there, or next to it, passes the test.  Each turn of the loop looks a character up, and
whether there is one depends on what the loop compared the position with before.

There are two such loops, `climb?` towards the end of the text and `descend?` towards its start.
They differ in how far from its position a loop looks, and in how many characters it stays away from
the end.  `climb?_eq` and `descend?_eq` say how far they go and that they look at characters only.
The motions that are made of them are then the same functions as before, and this is what
`target?_eq` and, for a motion that is repeated, `targetAfter?_eq` say.
-/

namespace PromptLine.Motion

open Text

/-! ## Loops over a text -/

/-- Moves a position on for as long as more than `margin` characters are left, and the character
`offset` behind the position passes the test. -/
def climb? (text : Text) (test : Char → Bool) (margin offset position : Nat) : Option Nat :=
  if position + margin < text.length then do
    let c ← text[position + offset]?
    if test c then climb? text test margin offset (position + 1) else some position
  else some position
termination_by text.length - position

/-- Moves a position back for as long as it is not the start of the text, and the character `offset`
before the position passes the test. -/
def descend? (text : Text) (test : Char → Bool) (offset : Nat) : Nat → Option Nat
  | 0 => some 0
  | position + 1 => do
    let index ← minus? (position + 1) offset
    let c ← text[index]?
    if test c then descend? text test offset position else some (position + 1)

variable {text : Text} {position : Nat}

/-- **A loop towards the end** looks at characters only, if it keeps at least as far from the end as
it looks ahead. -/
theorem climb?_eq (test : Char → Bool) {margin offset : Nat} (hoffset : offset ≤ margin)
    (position : Nat) :
    climb? text test margin offset position =
      some (position +
        min (run test (text.drop (position + offset))) (text.length - margin - position)) := by
  fun_induction climb? text test margin offset position with
  | case1 position hroom ih =>
    have hindex : position + offset < text.length := by omega
    rw [List.getElem?_eq_getElem hindex, List.drop_eq_getElem_cons hindex, run_cons]
    show (if test text[position + offset] = true then _ else _) = _
    split
    · have hnext : position + offset + 1 = position + 1 + offset := by omega
      rw [ih, hnext]
      congr 1
      omega
    · simp
  | case2 position hend =>
    have hnone : text.length - margin - position = 0 := by omega
    simp [hnone]

/-- A loop that goes on up to the end. -/
theorem climb?_to_end (test : Char → Bool) (position : Nat) :
    climb? text test 0 0 position = some (position + run test (text.drop position)) := by
  have hrun := run_le_length test (text.drop position)
  rw [List.length_drop] at hrun
  rw [climb?_eq test (Nat.le_refl 0), Nat.add_zero, Nat.sub_zero, Nat.min_eq_left hrun]

/-- A loop that stops on the last character. -/
theorem climb?_to_last (test : Char → Bool) (position : Nat) :
    climb? text test 1 1 position = some (position + run test (text.drop (position + 1))) := by
  have hrun := run_le_length test (text.drop (position + 1))
  rw [List.length_drop, Nat.sub_add_eq, Nat.sub_right_comm] at hrun
  rw [climb?_eq test (Nat.le_refl 1), Nat.min_eq_left hrun]

/-- **A loop towards the start** looks at characters only, if the first one that it looks at is
there. -/
theorem descend?_eq (test : Char → Bool) {offset : Nat} (hoffset : offset ≤ 1)
    (h : position + 1 - offset ≤ text.length) :
    descend? text test offset position =
      some (position - run test (text.take (position + 1 - offset)).reverse) := by
  induction position with
  | zero => rw [descend?, Nat.zero_sub]
  | succ position ih =>
    have hindex : position + 1 - offset < text.length := by omega
    have hnext : position + 1 + 1 - offset = position + 1 - offset + 1 := by omega
    rw [descend?, minus?_of_le (Nat.le_trans hoffset (Nat.le_add_left 1 position)), hnext,
      List.take_succ_eq_append_getElem hindex, List.reverse_append, List.reverse_singleton,
      List.singleton_append, run_cons]
    show (text[position + 1 - offset]?).bind _ = _
    rw [List.getElem?_eq_getElem hindex]
    show (if test text[position + 1 - offset] = true then _ else _) = _
    split
    · rw [ih (Nat.le_of_lt hindex), Nat.add_sub_add_right]
    · rfl

/-- A loop that looks at the character before its position. -/
theorem descend?_before (test : Char → Bool) (h : position ≤ text.length) :
    descend? text test 1 position =
      some (position - run test (text.take position).reverse) :=
  descend?_eq test (Nat.le_refl 1) h

/-- A loop that looks at the character at its position. -/
theorem descend?_on (test : Char → Bool) (h : position < text.length) :
    descend? text test 0 position =
      some (position - run test (text.take (position + 1)).reverse) :=
  descend?_eq test (Nat.zero_le 1) h

/-! ## Words by index -/

/-- Over what is not alphanumeric, and then over the alphanumerics. -/
def forwardWord? (text : Text) (position : Nat) : Option Nat := do
  let position ← climb? text (fun c => !Unicode.isAlphanumeric c) 0 0 position
  climb? text Unicode.isAlphanumeric 0 0 position

/-- The same towards the start. -/
def backwardWord? (text : Text) (position : Nat) : Option Nat := do
  let position ← descend? text (fun c => !Unicode.isAlphanumeric c) 1 position
  descend? text Unicode.isAlphanumeric 1 position

/-- Over the word at a position, if there is one, and the blanks behind it. -/
def nextWord? (big : Bool) (text : Text) (position : Nat) : Option Nat :=
  if text.length ≤ position then some text.length
  else do
    let c ← text[position]?
    let behind? :=
      if CharClass.of big c = .blank then some position
      else climb? text (fun d => CharClass.of big d == CharClass.of big c) 0 0 position
    let position ← behind?
    climb? text (fun d => CharClass.of big d == .blank) 0 0 position

/-- To the start of the word before a position.  The first step is a character back, and the loop
over the blanks looks at the character on which it stands. -/
def previousWord? (big : Bool) (text : Text) (position : Nat) : Option Nat :=
  if position = 0 then some 0
  else do
    let position ← minus? position 1
    let position ← descend? text (fun d => CharClass.of big d == .blank) 0 position
    let c ← text[position]?
    descend? text (fun d => CharClass.of big d == CharClass.of big c) 1 position

/-- To the last character of a word.  The first step is a character on, and both loops stay away
from the end, since the second one looks ahead. -/
def wordEnd? (big : Bool) (text : Text) (position : Nat) : Option Nat :=
  if text.length ≤ position + 1 then some (min position (text.length - 1))
  else do
    let position ← climb? text (fun d => CharClass.of big d == .blank) 1 0 (position + 1)
    let c ← text[position]?
    climb? text (fun d => CharClass.of big d == CharClass.of big c) 1 1 position

/-- Over the blanks and the word behind them. -/
def changeWord? (big : Bool) (text : Text) (position : Nat) : Option Nat := do
  let position ← climb? text (fun d => CharClass.of big d == .blank) 0 0 position
  if position < text.length then do
    let c ← text[position]?
    climb? text (fun d => CharClass.of big d == CharClass.of big c) 0 0 position
  else some position

/-- The characters of one class, beginning with the one at a position. -/
theorem classRun_drop (big : Bool) (h : position < text.length) :
    classRun big (text.drop position) =
      run (fun d => CharClass.of big d == CharClass.of big text[position])
        (text.drop position) := by
  rw [List.drop_eq_getElem_cons h]
  rfl

/-- The character at a position and what follows it in its class. -/
theorem classRun_drop_succ (big : Bool) (h : position < text.length) :
    classRun big (text.drop position) =
      run (fun d => CharClass.of big d == CharClass.of big text[position])
        (text.drop (position + 1)) + 1 := by
  rw [classRun_drop big h, List.drop_eq_getElem_cons h, run_cons, if_pos (beq_self_eq_true _)]

/-- The character at a position and what stands before it in its class. -/
theorem classRun_reverse_take_succ (big : Bool) (h : position < text.length) :
    classRun big (text.take (position + 1)).reverse =
      run (fun d => CharClass.of big d == CharClass.of big text[position])
        (text.take position).reverse + 1 := by
  rw [List.take_succ_eq_append_getElem h, List.reverse_append, List.reverse_singleton,
    List.singleton_append]
  show run _ (text[position] :: _) = _
  rw [run_cons, if_pos (beq_self_eq_true _)]

theorem forwardWord?_eq (text : Text) (position : Nat) :
    forwardWord? text position = some (position + wordSpan (text.drop position)) := by
  rw [forwardWord?, climb?_to_end]
  show climb? _ _ _ _ _ = _
  rw [climb?_to_end, wordSpan, List.drop_drop, Nat.add_assoc]

/-- The text before a position, read backwards from some steps before it. -/
theorem drop_reverse_take (h : position ≤ text.length) (steps : Nat) :
    (text.take position).reverse.drop steps = (text.take (position - steps)).reverse := by
  rw [List.drop_reverse, List.length_take_of_le h, List.take_take,
    Nat.min_eq_left (Nat.sub_le _ _)]

theorem backwardWord?_eq (h : position ≤ text.length) :
    backwardWord? text position = some (position - wordSpan (text.take position).reverse) := by
  rw [backwardWord?, descend?_before _ h]
  show descend? _ _ _ _ = _
  rw [descend?_before _ (Nat.le_trans (Nat.sub_le _ _) h), wordSpan, drop_reverse_take h,
    Nat.sub_sub]

theorem nextWord?_eq (big : Bool) (h : position ≤ text.length) :
    nextWord? big text position = some (position + nextWordSpan big (text.drop position)) := by
  rw [nextWord?]
  split
  · next hend =>
    rw [List.drop_eq_nil_of_le hend, Nat.le_antisymm hend h]
    rfl
  · next hwithin =>
    have hindex : position < text.length := Nat.lt_of_not_le hwithin
    have hhead : (text.drop position).head?.map (CharClass.of big) =
        some (CharClass.of big text[position]) := by
      rw [List.head?_drop, List.getElem?_eq_getElem hindex]
      rfl
    rw [List.getElem?_eq_getElem hindex, nextWordSpan, hhead, classRun_drop big hindex]
    show (if CharClass.of big text[position] = .blank then some position else _).bind _ = _
    simp only [Option.some.injEq]
    split
    · show climb? _ _ _ _ _ = _
      rw [climb?_to_end, Nat.zero_add]
      rfl
    · rw [climb?_to_end]
      show climb? _ _ _ _ _ = _
      rw [climb?_to_end, List.drop_drop, Nat.add_assoc]
      rfl

theorem previousWord?_eq (big : Bool) (h : position ≤ text.length) :
    previousWord? big text position =
      some (position - changeWordSpan big (text.take position).reverse) := by
  cases position with
  | zero => rfl
  | succ position =>
    have hblank : descend? text (fun d => CharClass.of big d == .blank) 0 position =
        some (position - blankRun big (text.take (position + 1)).reverse) :=
      descend?_on _ h
    rw [previousWord?, if_neg (Nat.succ_ne_zero position),
      minus?_of_le (Nat.le_add_left 1 position), changeWordSpan, drop_reverse_take h]
    show (descend? _ _ _ position).bind _ = _
    rw [hblank]
    generalize blankRun big (text.take (position + 1)).reverse = gap
    have hindex : position - gap < text.length := Nat.lt_of_le_of_lt (Nat.sub_le _ _) h
    show (text[position - gap]?).bind _ = _
    rw [List.getElem?_eq_getElem hindex]
    show descend? _ _ _ _ = _
    rw [descend?_before _ (Nat.le_of_lt hindex)]
    congr 1
    rcases Nat.lt_or_ge position gap with hpast | hwithin
    · -- there are only blanks before the position
      omega
    · have hsucc : position + 1 - gap = position - gap + 1 := by omega
      rw [hsucc, classRun_reverse_take_succ big hindex]
      omega

theorem wordEnd?_eq (big : Bool) (text : Text) (position : Nat) :
    wordEnd? big text position =
      some (if position + 1 < text.length then
          position + 1 + wordEndSpan big (text.drop (position + 1))
        else min position (text.length - 1)) := by
  rw [wordEnd?]
  split
  · next hlast => rw [if_neg (Nat.not_lt_of_le hlast)]
  · next hroom =>
    rw [if_pos (Nat.lt_of_not_le hroom), climb?_eq _ (Nat.zero_le 1), wordEndSpan, List.length_drop,
      Nat.sub_right_comm]
    have hblank : run (fun d => CharClass.of big d == .blank) (text.drop (position + 1 + 0)) =
        blankRun big (text.drop (position + 1)) := rfl
    rw [hblank, List.drop_drop]
    have hgap : min (blankRun big (text.drop (position + 1))) (text.length - (position + 1) - 1) ≤
        text.length - (position + 1) - 1 := Nat.min_le_right _ _
    generalize min (blankRun big (text.drop (position + 1))) (text.length - (position + 1) - 1) =
      gap at hgap ⊢
    have hindex : position + 1 + gap < text.length := by omega
    show (text[position + 1 + gap]?).bind _ = _
    rw [List.getElem?_eq_getElem hindex]
    show climb? _ _ _ _ _ = _
    rw [climb?_to_last, classRun_drop_succ big hindex, Nat.add_sub_cancel, Nat.add_assoc _ gap]

theorem changeWord?_eq (big : Bool) (text : Text) (position : Nat) :
    changeWord? big text position = some (position + changeWordSpan big (text.drop position)) := by
  have hblank : climb? text (fun d => CharClass.of big d == .blank) 0 0 position =
      some (position + blankRun big (text.drop position)) := climb?_to_end _ _
  rw [changeWord?, hblank, changeWordSpan, List.drop_drop]
  generalize blankRun big (text.drop position) = gap
  show (if position + gap < text.length then _ else _) = _
  split
  · next hindex =>
    rw [List.getElem?_eq_getElem hindex, classRun_drop big hindex]
    show climb? _ _ _ _ _ = _
    rw [climb?_to_end, Nat.add_assoc]
  · next hend =>
    rw [List.drop_eq_nil_of_le (Nat.le_of_not_lt hend)]
    rfl

/-! ## All motions -/

/-- Where the cursor would go, for the motions that look at single characters by their index. -/
def target? (motion : Motion) (text : Text) (cursor : Nat) : Option Nat :=
  let position := min cursor text.length
  match motion with
  | forwardWord => forwardWord? text position
  | backwardWord => backwardWord? text position
  | nextWord big => nextWord? big text position
  | previousWord big => previousWord? big text position
  | wordEnd big => wordEnd? big text position
  | changeWord big => changeWord? big text position
  | _ => some (motion.target text cursor)

/-- **A motion looks at characters of the text only**, wherever it starts. -/
theorem target?_eq (motion : Motion) (text : Text) (cursor : Nat) :
    motion.target? text cursor = some (motion.target text cursor) := by
  have hposition : min cursor text.length ≤ text.length := Nat.min_le_right _ _
  cases motion with
  | forwardWord => exact forwardWord?_eq text _
  | backwardWord => exact backwardWord?_eq hposition
  | nextWord big => exact nextWord?_eq big hposition
  | previousWord big => exact previousWord?_eq big hposition
  | wordEnd big => exact wordEnd?_eq big text _
  | changeWord big => exact changeWord?_eq big text _
  | _ => rfl

/-- The target after `count` steps, none of them left out. -/
def targetAfter? (motion : Motion) (text : Text) : Nat → Nat → Option Nat
  | 0, cursor => some cursor
  | count + 1, cursor => do
    let there ← motion.target? text cursor
    targetAfter? motion text count there

/-- So does a motion that is repeated, however often. -/
theorem targetAfter?_eq (motion : Motion) (text : Text) (count cursor : Nat) :
    motion.targetAfter? text count cursor = some (motion.targetAfter text count cursor) := by
  induction count generalizing cursor with
  | zero => rfl
  | succ count ih =>
    rw [targetAfter?, target?_eq, targetAfter_succ]
    exact ih (motion.target text cursor)

end PromptLine.Motion
