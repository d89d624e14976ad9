import PromptLine.Line.Desk

/-!
# What an operation does to a range

Every operation works between two positions, and it does not matter which of them comes first: the
range from the smaller to the larger one is taken away, copied or put into another case.  An empty
range changes nothing, and leaves no state to go back to.

`Desk.applyRange_of_le` says so for all operations at once, up to the last step, which settles the
cursor for command mode.

Before that comes what can be said of inserting alone: texts that are inserted one behind the other
are inserted as one.
-/

namespace PromptLine

namespace LineBuffer

section Pieces

variable (b : LineBuffer)

/-- What is inserted stands before the cursor. -/
theorem before_after_insert (text : Text) :
    (b.insert text).before = b.before ++ text ∧ (b.insert text).after = b.after := by
  rcases Nat.le_total b.cursor b.length with hwithin | hbehind
  · have hlength : b.before.length = b.cursor := List.length_take_of_le hwithin
    have hcursor : (b.insert text).cursor = (b.before ++ text).length := by
      rw [List.length_append, hlength]
      rfl
    rw [before, after, hcursor, insert]
    exact ⟨List.take_left, List.drop_left⟩
  · have hafter : b.after = [] := List.drop_eq_nil_iff.mpr hbehind
    have hcursor : (b.insert text).text.length ≤ (b.insert text).cursor := by
      change (b.insert text).length ≤ b.cursor + text.length
      rw [length_insert]
      omega
    rw [before, after, List.take_of_length_le hcursor, List.drop_eq_nil_iff.mpr hcursor, insert,
      hafter, List.append_nil]
    exact ⟨rfl, rfl⟩

theorem insert_nil : b.insert [] = b := by
  rw [insert, List.append_nil, before_append_after]
  rfl

theorem insert_insert (first second : Text) :
    (b.insert first).insert second = b.insert (first ++ second) := by
  obtain ⟨hbefore, hafter⟩ := b.before_after_insert first
  rw [insert, hbefore, hafter]
  simp [insert, Nat.add_assoc]

end Pieces

variable {b : LineBuffer} {first last : Nat}

/-- A line is made of a range and what surrounds it. -/
theorem take_append_slice_append_drop (b : LineBuffer) (h : first ≤ last) :
    b.text.take first ++ b.slice first last ++ b.text.drop last = b.text := by
  have htake : b.text.take first = (b.text.take last).take first := by
    rw [List.take_take, Nat.min_eq_left h]
  rw [slice, htake, List.take_append_drop, List.take_append_drop]

theorem length_slice (hlast : last ≤ b.length) : (b.slice first last).length = last - first := by
  have hlength : last ≤ b.text.length := hlast
  rw [slice, List.length_drop, List.length_take, Nat.min_eq_left hlength]

theorem slice_ne_nil (hfirst : first < last) (hlast : last ≤ b.length) :
    b.slice first last ≠ [] := by
  rw [← List.length_pos_iff, length_slice hlast]
  exact Nat.sub_pos_of_lt hfirst

/-- The line with another text in the place of a range, and with the line before as a state to go
back to. -/
def splice (b : LineBuffer) (first last : Nat) (text : Text) (cursor : Nat) : LineBuffer :=
  { b.save with text := b.text.take first ++ text ++ b.text.drop last, cursor := cursor }

/-- Deleting forwards from a position. -/
theorem delete_place_forwards (hfirst : first ≤ last) (hlast : last ≤ b.length) :
    (b.save.place first).delete (last - first : Int) = b.splice first last [] first := by
  have hplace : min first b.length = first := Nat.min_eq_left (Nat.le_trans hfirst hlast)
  have hforwards : (0 : Int) ≤ last - first := by omega
  have hcount : ((last : Int) - first).natAbs = last - first := by omega
  rw [delete, if_pos hforwards, hcount, eraseAfter, before, after, splice, List.append_nil]
  change { b.save with
    text := b.text.take (min first b.length) ++
      (b.text.drop (min first b.length)).drop (last - first)
    cursor := min first b.length : LineBuffer } = _
  rw [hplace, List.drop_drop, Nat.add_sub_cancel' hfirst]

/-- Deleting backwards from a position. -/
theorem delete_place_backwards (hfirst : first < last) (hlast : last ≤ b.length) :
    (b.save.place last).delete (first - last : Int) = b.splice first last [] first := by
  have hplace : min last b.length = last := Nat.min_eq_left hlast
  have hbackwards : ¬(0 : Int) ≤ first - last := by omega
  have hcount : last - ((first : Int) - last).natAbs = first := by omega
  rw [delete, if_neg hbackwards, eraseBefore, after, splice, List.append_nil]
  change { b.save with
    text := b.text.take (min last b.length - ((first : Int) - last).natAbs) ++
      b.text.drop (min last b.length)
    cursor := min last b.length - ((first : Int) - last).natAbs : LineBuffer } = _
  rw [hplace, hcount]

/-- Text that is put in where a range was taken away stands in its place. -/
theorem insert_splice (hfirst : first ≤ b.length) (text : Text) :
    (b.splice first last [] first).insert text =
      b.splice first last text (first + text.length) := by
  have hlength : (b.text.take first).length = first := by
    rw [List.length_take]
    exact Nat.min_eq_left hfirst
  rw [insert, before, after, splice, splice, List.append_nil]
  dsimp only
  rw [List.take_left' hlength, List.drop_left' hlength]

theorem place_splice (hfirst : first ≤ b.length) (text : Text) (cursor : Nat) :
    (b.splice first last text cursor).place first = b.splice first last text first := by
  have hwithin : first ≤ (b.splice first last text cursor).length := by
    rw [length, splice, List.length_append, List.length_append, List.length_take,
      Nat.min_eq_left (show first ≤ b.text.length from hfirst), Nat.add_assoc]
    exact Nat.le_add_right _ _
  rw [place, Nat.min_eq_left hwithin]
  rfl

end LineBuffer

namespace Desk

variable {d : Desk} {start target first last : Nat}

/-! ## What becomes of a range -/

/-- The desk without the text of a range, of which a copy is kept unless the line is masked. -/
def without (d : Desk) (first last : Nat) : Desk :=
  (d.keep first last).withBuffer (d.buffer.splice first last [] first)

/-- The desk with the text of a range in another case. -/
def recased (commandMode : Bool) (operation : Status) (d : Desk) (first last : Nat) : Desk :=
  let text := recaseText operation (d.buffer.followsWord first) (d.buffer.slice first last)
  d.withBuffer
    (d.buffer.splice first last text (if commandMode then first else first + text.length))

@[simp] theorem buffer_keep (d : Desk) (first last : Nat) :
    (d.keep first last).buffer = d.buffer := by
  rw [keep]
  split <;> rfl

/-- What is kept of a range can be put back. -/
theorem current?_keep (hfirst : first < last) (hlast : last ≤ d.buffer.length)
    (hmasked : d.buffer.masked = false) :
    (d.keep first last).kills.current? = some (d.buffer.slice first last) := by
  rw [keep, hmasked]
  exact KillRing.current?_add (LineBuffer.slice_ne_nil hfirst hlast)

/-- The text between two positions is taken away, whichever of them comes first. -/
theorem cut_eq_without (hstart : start ≤ d.buffer.length) (htarget : target ≤ d.buffer.length) :
    d.cut start target = d.without (min start target) (max start target) := by
  rw [cut, without, buffer_keep]
  rcases Nat.lt_or_ge target start with hbackwards | hforwards
  · rw [Nat.min_eq_right (Nat.le_of_lt hbackwards), Nat.max_eq_left (Nat.le_of_lt hbackwards),
      LineBuffer.delete_place_backwards hbackwards hstart]
  · rw [Nat.min_eq_left hforwards, Nat.max_eq_right hforwards,
      LineBuffer.delete_place_forwards hforwards htarget]

/-- The text of a range is put into another case. -/
theorem changeCase_eq_recased (commandMode : Bool) (operation : Status) (hfirst : first ≤ last)
    (hlast : last ≤ d.buffer.length) :
    d.changeCase commandMode operation first last = d.recased commandMode operation first last := by
  have hwithin := Nat.le_trans hfirst hlast
  rw [changeCase, recased, Int.ofNat_sub hfirst, LineBuffer.delete_place_forwards hfirst hlast,
    LineBuffer.insert_splice hwithin]
  cases commandMode with
  | false => rfl
  | true => rw [if_pos rfl, if_pos rfl, LineBuffer.place_splice hwithin]

/-! ## The range between two positions -/

/-- **What an operation does to the text between two positions on the line.** -/
theorem applyRange_of_le (commandMode : Bool) (operation : Status)
    (hstart : start ≤ d.buffer.length) (htarget : target ≤ d.buffer.length) :
    d.applyRange commandMode operation start target =
      settle commandMode
        (match operation with
        | .delete | .change =>
          if start = target then d else d.without (min start target) (max start target)
        | .yank =>
          (if start = target then d else d.keep (min start target) (max start target)).withBuffer
            (d.buffer.place (min start target))
        | .upCase | .downCase | .capitalize =>
          if start = target then d
          else d.recased commandMode operation (min start target) (max start target)
        | _ => d.withBuffer (d.buffer.place target)) := by
  have hempty : min start target = max start target ↔ start = target := by omega
  have hlast : max start target ≤ d.buffer.length := Nat.max_le.mpr ⟨hstart, htarget⟩
  have hfirst : min start target ≤ max start target := by omega
  unfold applyRange
  dsimp only
  rw [Nat.min_eq_left hstart, Nat.min_eq_left htarget]
  simp only [hempty, cut_eq_without hstart htarget, changeCase_eq_recased _ _ hfirst hlast]
  cases operation with
  | yank =>
    dsimp only
    split
    · rfl
    · rw [buffer_keep]
  | _ => rfl

end Desk

end PromptLine
