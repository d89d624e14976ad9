import PromptLine.Proofs.Line.Ranges

/-!
# Range operations, position by position

An operation puts something in the place of a range.  It goes about it in steps: it saves the line,
moves the cursor to one end of the range, deletes towards the other end, and may insert what it has
made of the text while it walked over it.  None of this has to be seen from outside.

What is put in is said here for each position of the line by itself.  In particular whether a
character continues a word is a matter of the character before it on the line as it was, be that
inside the range or in front of it.  `applyRange_eq` then gives the whole desk after an operation,
for any two positions and any line.
-/

namespace PromptLine

/-! ## Characters in another case -/

namespace Text

/-- The character before a position belongs to a word. -/
def continuesWord (text : Text) (position : Nat) : Bool :=
  decide (0 < position) && text[position - 1]?.any Unicode.isAlphanumeric

/-- What a case operation makes of the character at a position.  To capitalize is to put the first
character of a word into upper case and the others of it into lower case. -/
def recasedAt (operation : Status) (text : Text) (position : Nat) : Text :=
  match text[position]? with
  | none => []
  | some c =>
    match operation with
    | .upCase => Unicode.toUpper c
    | .downCase => Unicode.toLower c
    | _ =>
      if Unicode.isAlphanumeric c then
        if text.continuesWord position then Unicode.toLower c else Unicode.toUpper c
      else [c]

end Text

namespace Status

/-- What an operation puts in the place of a range. -/
def replacement (operation : Status) (line : Text) (first last : Nat) : Text :=
  match operation with
  | delete | change => []
  | upCase | downCase | capitalize =>
    (List.range' first (last - first)).flatMap (line.recasedAt operation)
  | _ => (line.take last).drop first

/-- Whether an operation writes to the range. -/
def rewrites : Status → Bool
  | delete | change | upCase | downCase | capitalize => true
  | _ => false

/-- Whether an operation keeps a copy of the range. -/
def copies : Status → Bool
  | delete | change | yank => true
  | _ => false

/-- In place of nothing, nothing is put. -/
theorem replacement_self (operation : Status) (line : Text) (position : Nat) :
    operation.replacement line position position = [] := by
  cases operation <;> simp [replacement]

/-- Where an operation on a range that is not empty puts the cursor, before it is settled.  Behind
what is in another case now, or in command mode at its start; and where there is nothing to do to
the range, at the target. -/
def leads (operation : Status) (commandMode : Bool) (line : Text) (first last target : Nat) : Nat :=
  match operation with
  | delete | change | yank => first
  | upCase | downCase | capitalize =>
    if commandMode then first else first + (operation.replacement line first last).length
  | _ => target

theorem leads_self {operation : Status} (commandMode : Bool) (line : Text) (position : Nat)
    (h : operation.rewrites = false) :
    operation.leads commandMode line position position position = position := by
  cases operation with
  | delete | change | upCase | downCase | capitalize => cases h
  | _ => rfl

end Status

namespace LineBuffer

variable {b : LineBuffer} {first last position : Nat}

theorem followsWord_eq (h : position ≤ b.length) :
    b.followsWord position = b.text.continuesWord position := by
  rw [followsWord, Text.continuesWord, List.getLast?_take]
  rcases Nat.eq_zero_or_pos position with rfl | hpos
  · rfl
  · have hindex : position - 1 < b.text.length := Nat.lt_of_lt_of_le (Nat.sub_one_lt_of_lt hpos) h
    rw [if_neg (Nat.ne_of_gt hpos), decide_eq_true hpos, Bool.true_and,
      List.getElem?_eq_getElem hindex]
    rfl

/-- **A walk over a range**, which knows of each character whether the one before it belongs to a
word, puts each position by itself into another case. -/
theorem recaseText_eq (operation : Status) (b : LineBuffer) (count : Nat)
    (h : first + count ≤ b.length) :
    recaseText operation (b.followsWord first) (b.slice first (first + count)) =
      (List.range' first count).flatMap (b.text.recasedAt operation) := by
  induction count generalizing first with
  | zero =>
    have hempty : b.slice first (first + 0) = [] :=
      List.drop_eq_nil_of_le (List.length_take_le first b.text)
    rw [hempty]
    rfl
  | succ count ih =>
    have hnext : first + 1 ≤ b.length := by omega
    have hthere : first < b.text.length := hnext
    have hslice : b.slice first (first + (count + 1)) =
        b.text[first] :: b.slice (first + 1) (first + 1 + count) := by
      have hlast : first + (count + 1) = first + 1 + count := by omega
      have hlong : first < (b.text.take (first + 1 + count)).length := by
        rw [List.length_take]
        omega
      rw [hlast, slice, List.drop_eq_getElem_cons hlong, List.getElem_take]
      rfl
    have hflag : Unicode.isAlphanumeric b.text[first] = b.followsWord (first + 1) := by
      rw [followsWord_eq hnext, Text.continuesWord, Nat.add_sub_cancel,
        List.getElem?_eq_getElem hthere]
      simp
    have hchar : recase operation (b.followsWord first) b.text[first] =
        b.text.recasedAt operation first := by
      rw [followsWord_eq (Nat.le_of_lt hthere), Text.recasedAt, List.getElem?_eq_getElem hthere]
      cases operation <;> rfl
    rw [hslice, recaseText, hchar, hflag, ih (by omega), List.range'_succ, List.flatMap_cons]

/-- Where the cursor is after it was settled: in command mode, on the last character if it was
behind it. -/
def settledCursor (commandMode : Bool) (length cursor : Nat) : Nat :=
  if commandMode = true ∧ 0 < length ∧ length ≤ cursor then length - 1 else cursor

theorem settle_eq (commandMode : Bool) (b : LineBuffer) :
    b.settle commandMode = { b with cursor := settledCursor commandMode b.length b.cursor } := by
  rw [settle, settledCursor]
  split
  · rw [place, Nat.min_eq_left (Nat.sub_le _ _)]
  · rfl

end LineBuffer

namespace Desk

variable {d : Desk} {start target first last position : Nat}

theorem applyRange_min (d : Desk) (commandMode : Bool) (operation : Status) (start target : Nat) :
    d.applyRange commandMode operation (min start d.buffer.length) (min target d.buffer.length) =
      d.applyRange commandMode operation start target := by
  unfold applyRange
  simp only [Nat.min_assoc, Nat.min_self]

theorem settle_eq (commandMode : Bool) (d : Desk) :
    d.settle commandMode =
      { d with
        buffer :=
          { d.buffer with
            cursor := LineBuffer.settledCursor commandMode d.buffer.length d.buffer.cursor } } := by
  rw [settle, LineBuffer.settle_eq]
  rfl

theorem keep_eq (d : Desk) (first last : Nat) :
    d.keep first last =
      { d with
        kills :=
          if d.buffer.masked = false then d.kills.add (d.buffer.slice first last)
          else d.kills } := by
  rw [keep]
  cases d.buffer.masked <;> rfl

/-! ## The two kinds of ranges -/

/-- Where there is nothing between the two positions, the only thing left to do is to go there. -/
theorem applyRange_self (commandMode : Bool) (operation : Status)
    (hposition : position ≤ d.buffer.length) :
    d.applyRange commandMode operation position position =
      settle commandMode
        (if operation.rewrites then d else d.withBuffer (d.buffer.place position)) := by
  rw [applyRange_of_le commandMode operation hposition hposition]
  cases operation <;> simp [Status.rewrites]

/-- What an operation does where there is something between the two positions. -/
theorem applyRange_of_ne (commandMode : Bool) (operation : Status) (hne : start ≠ target)
    (hstart : start ≤ d.buffer.length) (htarget : target ≤ d.buffer.length)
    (hfirst : min start target = first) (hlast : max start target = last) :
    d.applyRange commandMode operation start target =
      settle commandMode
        { d with
          buffer :=
            { d.buffer with
              text :=
                d.buffer.text.take first ++ operation.replacement d.buffer.text first last ++
                  d.buffer.text.drop last
              cursor := operation.leads commandMode d.buffer.text first last target
              saved := if operation.rewrites then d.buffer.save.saved else d.buffer.saved }
          kills :=
            if operation.copies ∧ d.buffer.masked = false then
              d.kills.add (d.buffer.slice first last)
            else d.kills } := by
  have hproper : first < last := by omega
  have hwithin : last ≤ d.buffer.length := by omega
  have hcount : first + (last - first) = last := Nat.add_sub_cancel' (Nat.le_of_lt hproper)
  have hsame : d.buffer.text.take first ++ (d.buffer.text.take last).drop first ++
      d.buffer.text.drop last = d.buffer.text :=
    d.buffer.take_append_slice_append_drop (Nat.le_of_lt hproper)
  have hrecased (operation : Status) :
      recaseText operation (d.buffer.followsWord first) (d.buffer.slice first last) =
        (List.range' first (last - first)).flatMap (d.buffer.text.recasedAt operation) := by
    have h := LineBuffer.recaseText_eq operation d.buffer (last - first) (hcount.symm ▸ hwithin)
    rwa [hcount] at h
  rw [applyRange_of_le commandMode operation hstart htarget, hfirst, hlast]
  simp only [if_neg hne]
  -- The operations fall into four groups, by what they do to the text and to the cursor.
  cases operation with
  | delete | change =>
    simp only [Status.copies, Status.rewrites, Status.replacement, Status.leads, without, keep_eq,
      true_and]
    rfl
  | yank =>
    simp only [Status.copies, Status.rewrites, Status.replacement, Status.leads, keep_eq, true_and,
      hsame, LineBuffer.place, Nat.min_eq_left (show first ≤ d.buffer.length by omega)]
    rfl
  | upCase | downCase | capitalize =>
    simp only [Status.copies, Status.rewrites, Status.replacement, Status.leads, recased, hrecased]
    rfl
  | _ =>
    simp only [Status.copies, Status.rewrites, Status.replacement, Status.leads, hsame,
      LineBuffer.place, Nat.min_eq_left htarget]
    rfl

/-- **A range operation, as a whole.**  Let both positions be capped at the end of the line, and be
the ends of a range.  The text of the range is replaced, the cursor goes where the operation leads,
and in command mode from behind the last character onto it.  An operation that writes to a range
that is not empty saves the line as it was, and one that copies it puts its text into the kill ring,
where it becomes current, unless the line is masked.  Nothing else changes, and with an empty range
not even the cursor is moved but by an operation that goes somewhere. -/
theorem applyRange_eq (d : Desk) (commandMode : Bool) (operation : Status) (start target : Nat) :
    let line := d.buffer.text
    let origin := min start line.length
    let goal := min target line.length
    let first := min origin goal
    let last := max origin goal
    let text := line.take first ++ operation.replacement line first last ++ line.drop last
    let copied := first < last ∧ operation.copies ∧ d.buffer.masked = false
    d.applyRange commandMode operation start target =
        { d with
          buffer :=
            { d.buffer with
              text := text
              cursor := LineBuffer.settledCursor commandMode text.length
                (if first = last ∧ operation.rewrites then d.buffer.cursor
                  else operation.leads commandMode line first last goal)
              saved :=
                if first < last ∧ operation.rewrites then
                  ((line, d.buffer.cursor) :: d.buffer.saved).take LineBuffer.undoLimit
                else d.buffer.saved }
          kills := if copied then d.kills.add ((line.take last).drop first) else d.kills } ∧
      (copied →
        (d.applyRange commandMode operation start target).kills.current? =
          some ((line.take last).drop first)) := by
  intro line origin goal first last text copied
  have horigin : origin ≤ d.buffer.length := Nat.min_le_right _ _
  have hgoal : goal ≤ d.buffer.length := Nat.min_le_right _ _
  -- An operation caps its positions itself, so it can be asked for the capped ones right away.
  rw [← applyRange_min]
  show d.applyRange commandMode operation origin goal = _ ∧
    (copied → (d.applyRange commandMode operation origin goal).kills.current? = _)
  by_cases hsame : origin = goal
  · have hempty : first = last := by omega
    have htext : text = line := by
      show line.take first ++ operation.replacement line first last ++ line.drop last = line
      rw [hempty, Status.replacement_self, List.append_nil, List.take_append_drop]
    have hproper : ¬first < last := by omega
    have hcopied : ¬copied := fun h => hproper h.1
    have hsaved : ¬(first < last ∧ operation.rewrites = true) := fun h => hproper h.1
    refine ⟨?_, fun h => absurd h hcopied⟩
    rw [if_neg hcopied, if_neg hsaved, htext, hsame, applyRange_self commandMode operation hgoal,
      settle_eq, show first = goal by omega, show last = goal by omega]
    simp only [true_and]
    cases hrewrites : operation.rewrites with
    | true => rfl
    | false =>
      have hplace : min goal d.buffer.length = goal := Nat.min_eq_left hgoal
      have hleads := Status.leads_self commandMode line goal hrewrites
      simp only [Bool.false_eq_true, ite_false, hleads, withBuffer, LineBuffer.place, hplace]
      rfl
  · have hproper : first < last := by omega
    have hlast : last ≤ d.buffer.length := Nat.max_le.mpr ⟨horigin, hgoal⟩
    rw [applyRange_of_ne commandMode operation hsame horigin hgoal rfl rfl, settle_eq]
    refine ⟨?_, fun hcopied => ?_⟩
    · have hne : first ≠ last := Nat.ne_of_lt hproper
      simp only [copied, hproper, hne, true_and, false_and]
      rfl
    · show KillRing.current? (if _ then _ else _) = _
      rw [if_pos hcopied.2]
      exact KillRing.current?_add (LineBuffer.slice_ne_nil hproper hlast)

/-- To capitalize is not to leave the rest of a word alone.  And in command mode the cursor need not
be where the range began, or at the target: it does not stay behind the last character. -/
theorem applyRange_lowers_and_settles :
    let desk (line : Text) (cursor : Nat) : Desk :=
      ⟨⟨line, cursor, [], false⟩, .empty 10, .empty 500⟩
    let capitalized := (desk ['h', 'E', 'L', 'L', 'O'] 0).applyRange false .capitalize 0 5
    let deleted := (desk ['a', 'b', 'c', 'd'] 3).applyRange true .delete 3 4
    let moved := (desk ['a', 'b', 'c'] 0).applyRange true .move 0 10
    (capitalized.buffer.text = ['H', 'e', 'l', 'l', 'o'] ∧
        capitalized.buffer.text ≠ ['H', 'E', 'L', 'L', 'O']) ∧
      (deleted.buffer.text = ['a', 'b', 'c'] ∧ deleted.buffer.cursor = 2 ∧
        deleted.buffer.cursor ≠ min 3 4) ∧
      moved.buffer.cursor = 2 ∧ moved.buffer.cursor ≠ min 10 moved.buffer.length := by
  decide +kernel

end Desk

end PromptLine
