import Mathlib.Logic.Function.Iterate
import PromptLine.Line.Motion

/-!
# Where motions lead

A motion stays on the line: it counts how far to go in the text after the cursor, or in the text
before it, and cannot count more characters than there are.  Walking on from where a motion leads is
plain iteration, although the walk itself stops as soon as it makes no way.
-/

namespace PromptLine.Motion

/-! ## Counting at the front of a text -/

theorem run_cons (test : Char → Bool) (c : Char) (rest : Text) :
    run test (c :: rest) = if test c then run test rest + 1 else 0 := by
  rw [run, List.takeWhile_cons]
  split <;> rfl

theorem run_le_length (test : Char → Bool) (text : Text) : run test text ≤ text.length :=
  (List.takeWhile_prefix test).length_le

theorem classRun_le_length (big : Bool) (text : Text) : classRun big text ≤ text.length := by
  cases text with
  | nil => exact Nat.zero_le _
  | cons c rest => exact run_le_length _ _

/-- Counting on behind what was counted stays within the text. -/
theorem add_le_length {text : Text} {first second : Nat} (hfirst : first ≤ text.length)
    (hsecond : second ≤ (text.drop first).length) : first + second ≤ text.length := by
  rw [List.length_drop] at hsecond
  omega

theorem wordSpan_le_length (text : Text) : wordSpan text ≤ text.length :=
  add_le_length (run_le_length _ _) (run_le_length _ _)

theorem nextWordSpan_le_length (big : Bool) (text : Text) :
    nextWordSpan big text ≤ text.length := by
  refine add_le_length ?_ (run_le_length _ _)
  split
  · exact Nat.zero_le _
  · exact classRun_le_length big text

theorem changeWordSpan_le_length (big : Bool) (text : Text) :
    changeWordSpan big text ≤ text.length :=
  add_le_length (run_le_length _ _) (classRun_le_length _ _)

theorem wordEndSpan_le_length (big : Bool) (text : Text) : wordEndSpan big text ≤ text.length := by
  refine add_le_length ?_ (Nat.le_trans (Nat.sub_le _ 1) (classRun_le_length _ _))
  exact Nat.le_trans (Nat.min_le_right _ _) (Nat.sub_le _ 1)

/-! ## Targets -/

/-- **A motion stays on the line.** -/
theorem target_le_length (motion : Motion) (line : Text) (cursor : Nat) :
    motion.target line cursor ≤ line.length := by
  have hcursor : min cursor line.length ≤ line.length := Nat.min_le_right _ _
  have hbehind : ∀ steps, min cursor line.length - steps ≤ line.length := fun steps =>
    Nat.le_trans (Nat.sub_le _ steps) hcursor
  cases motion with
  | forwardChar => exact Nat.min_le_right _ _
  | backwardChar => exact hbehind 1
  | lineStart => exact Nat.zero_le _
  | lineEnd => exact Nat.le_refl _
  | wholeLine => exact Nat.le_refl _
  | firstNonBlank => exact run_le_length _ _
  | forwardWord => exact add_le_length hcursor (wordSpan_le_length _)
  | backwardWord => exact hbehind _
  | nextWord big => exact add_le_length hcursor (nextWordSpan_le_length big _)
  | previousWord big => exact hbehind _
  | changeWord big => exact add_le_length hcursor (changeWordSpan_le_length big _)
  | wordEnd big =>
    rw [target]
    split
    · next hroom => exact add_le_length (Nat.le_of_lt hroom) (wordEndSpan_le_length big _)
    · exact Nat.le_trans (Nat.min_le_right _ _) (Nat.sub_le _ 1)

/-- A walk is iteration of the motion. -/
theorem targetAfter_eq_iterate (motion : Motion) (line : Text) (count cursor : Nat) :
    motion.targetAfter line count cursor = (motion.target line)^[count] cursor := by
  induction count generalizing cursor with
  | zero => rfl
  | succ count ih => rw [targetAfter_succ, ih, Function.iterate_succ_apply]

/-- A walk from a position on the line ends on the line. -/
theorem iterate_target_le_length (motion : Motion) {line : Text} {cursor : Nat}
    (h : cursor ≤ line.length) (count : Nat) :
    (motion.target line)^[count] cursor ≤ line.length := by
  cases count with
  | zero => exact h
  | succ count =>
    rw [Function.iterate_succ_apply']
    exact motion.target_le_length line _

end PromptLine.Motion
