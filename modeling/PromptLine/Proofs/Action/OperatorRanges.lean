import PromptLine.Action
import PromptLine.Proofs.Line.Motions
import PromptLine.Proofs.Line.Ranges
import PromptLine.Proofs.Mode.Operators

/-!
# What an operator does to the range of its motion

An operator puts an image of the text in its place: nothing, the text itself, or the text in another
case.  `Operator.Done` says this of a desk before and after, together with where the cursor is and
what can be put back.  It holds for every motion, in whichever direction it goes, and also where
there is nothing between the cursor and the target.
-/

namespace PromptLine

namespace LineBuffer

variable {b : LineBuffer}

/-- In command mode a cursor on the line is taken back onto the last character. -/
theorem cursor_settle (commandMode : Bool) (h : b.cursor ≤ b.length) :
    (b.settle commandMode).cursor =
      if commandMode = true then min b.cursor (b.length - 1) else b.cursor := by
  rw [settle]
  split
  · next hpast =>
    rw [if_pos hpast.1]
    change min (b.length - 1) b.length = _
    omega
  · next hwithin =>
    split
    · next hcommand =>
      have hshort : b.length = 0 ∨ b.cursor < b.length := by
        by_contra hcontra
        exact hwithin ⟨hcommand, by omega, by omega⟩
      omega
    · rfl

end LineBuffer

namespace Vi.Operator

/-- What an operator puts in the place of a text. -/
def image (op : Operator) (text : Text) : Text :=
  match op with
  | delete | change => []
  | yank => text
  | upCase => text.flatMap Unicode.toUpper
  | downCase => text.flatMap Unicode.toLower

/-- Whether an operator keeps a copy that can be put back. -/
def keeps : Operator → Bool
  | delete | change | yank => true
  | upCase | downCase => false

/-- What an operator makes of a range, from one desk to another. -/
structure Done (op : Operator) (first last : Nat) (d after : Desk) : Prop where
  text : after.buffer.text =
    d.buffer.text.take first ++ op.image (d.buffer.slice first last) ++ d.buffer.text.drop last
  /-- Only where text is typed next the cursor may be behind the last character. -/
  cursor : after.buffer.cursor =
    if op = .change then first else min first (after.buffer.length - 1)
  kept : op.keeps = true → first < last →
    after.kills.current? = some (d.buffer.slice first last)

theorem recaseText_upCase (inWord : Bool) (text : Text) :
    recaseText .upCase inWord text = text.flatMap Unicode.toUpper := by
  induction text generalizing inWord with
  | nil => rfl
  | cons c rest ih => rw [recaseText, ih, List.flatMap_cons]; rfl

theorem recaseText_downCase (inWord : Bool) (text : Text) :
    recaseText .downCase inWord text = text.flatMap Unicode.toLower := by
  induction text generalizing inWord with
  | nil => rfl
  | cons c rest ih => rw [recaseText, ih, List.flatMap_cons]; rfl

variable {d after : Desk} {first last target : Nat}

/-- Settling the cursor is the last step of every operator. -/
theorem done_settle (op : Operator) (hfirst : first ≤ d.buffer.length)
    (htext : after.buffer.text =
      d.buffer.text.take first ++ op.image (d.buffer.slice first last) ++ d.buffer.text.drop last)
    (hcursor : after.buffer.cursor = first)
    (hkept : op.keeps = true → first < last →
      after.kills.current? = some (d.buffer.slice first last)) :
    op.Done first last d (after.settle (op != .change)) := by
  have hwithin : after.buffer.cursor ≤ after.buffer.length := by
    rw [hcursor, LineBuffer.length, htext, List.append_assoc, List.length_append, List.length_take,
      Nat.min_eq_left (show first ≤ d.buffer.text.length from hfirst)]
    exact Nat.le_add_right _ _
  have hsettled : (after.settle (op != .change)).buffer.text = after.buffer.text :=
    LineBuffer.text_settle _ _
  refine ⟨hsettled.trans htext, ?_, hkept⟩
  have hlength : (after.settle (op != .change)).buffer.length = after.buffer.length :=
    congrArg List.length hsettled
  refine (LineBuffer.cursor_settle (op != .change) hwithin).trans ?_
  rw [hlength, hcursor]
  cases op <;> rfl

/-- Where there is nothing between cursor and target, nothing changes. -/
theorem done_empty (op : Operator) (hcursor : d.buffer.cursor ≤ d.buffer.length) :
    op.Done d.buffer.cursor d.buffer.cursor d (d.settle (op != .change)) := by
  have himage : op.image [] = [] := by cases op <;> rfl
  have hslice : d.buffer.slice d.buffer.cursor d.buffer.cursor = [] := by
    rw [← List.length_eq_zero_iff, LineBuffer.length_slice hcursor, Nat.sub_self]
  refine op.done_settle hcursor ?_ rfl (fun _ hlt => absurd hlt (Nat.lt_irrefl _))
  rw [hslice, himage, List.append_nil, List.take_append_drop]

/-- **What an operator does to the range between the cursor and a target.** -/
theorem done_applyRange (op : Operator) (hcursor : d.buffer.cursor ≤ d.buffer.length)
    (htarget : target ≤ d.buffer.length) (hmasked : d.buffer.masked = false) :
    op.Done (min d.buffer.cursor target) (max d.buffer.cursor target) d
      (d.applyRange (op != .change) op.status d.buffer.cursor target) := by
  rw [Desk.applyRange_of_le _ _ hcursor htarget]
  by_cases hsame : d.buffer.cursor = target
  · have hplace : d.withBuffer (d.buffer.place d.buffer.cursor) = d := by
      rw [LineBuffer.place, Nat.min_eq_left hcursor]
      rfl
    have hempty := op.done_empty hcursor
    rw [← hsame, Nat.min_self, Nat.max_self]
    cases op with
    | yank => dsimp only [status]; rw [if_pos rfl, hplace]; exact hempty
    | _ => dsimp only [status]; rw [if_pos rfl]; exact hempty
  · have hproper : min d.buffer.cursor target < max d.buffer.cursor target := by omega
    have hlast : max d.buffer.cursor target ≤ d.buffer.length := Nat.max_le.mpr ⟨hcursor, htarget⟩
    have hfirst := Nat.le_trans (Nat.le_of_lt hproper) hlast
    have hkeep := Desk.current?_keep hproper hlast hmasked
    rw [if_neg hsame, if_neg hsame, if_neg hsame]
    generalize min d.buffer.cursor target = first, max d.buffer.cursor target = last at *
    cases op with
    | delete => exact done_settle .delete hfirst rfl rfl fun _ _ => hkeep
    | change => exact done_settle .change hfirst rfl rfl fun _ _ => hkeep
    | yank =>
      refine done_settle .yank hfirst ?_ (Nat.min_eq_left hfirst) fun _ _ => hkeep
      exact (LineBuffer.take_append_slice_append_drop d.buffer (Nat.le_of_lt hproper)).symm
    | upCase =>
      refine done_settle .upCase hfirst ?_ rfl (fun hkeeps => by cases hkeeps)
      rw [image, ← recaseText_upCase (d.buffer.followsWord first)]
      rfl
    | downCase =>
      refine done_settle .downCase hfirst ?_ rfl (fun hkeeps => by cases hkeeps)
      rw [image, ← recaseText_downCase (d.buffer.followsWord first)]
      rfl

end Vi.Operator

end PromptLine
