import Mathlib.Algebra.Group.Int.Defs
import Mathlib.Algebra.Group.Nat.Defs
import PromptLine.Proofs.Line.CursorBounds

/-!
# Positions and distances in machine words

A position in a line is a natural number here, and a distance between positions is an integer.  A
machine keeps the one in an unsigned word of 64 bits and the other in a signed one.  Then a sum or a
difference can be too large for its word, and a conversion from one kind of word to the other can
mean another number.  The operations on words do what the machine does, and answer with a fault
where the machine would go wrong.

Positions within a line are small.  A text is one block of memory, and no block has more than
`2 ^ 63 - 1` bytes, of which each code point takes four.  But somebody who puts the cursor at a
position can ask for any word.  `setCursor` converts the position that is asked for and the one at
hand to signed words, and moves the cursor by the difference.  Below `2 ^ 63` every step of this is
what it is in the integers, and the cursor goes where it should.  From `2 ^ 63` on the converted
position is negative: the cursor goes to the start of the line, unless the difference overflows
(`arrives_iff`).
-/

namespace PromptLine

namespace Machine

/-! ## Arithmetic -/

/-- As many code points as a block of memory can hold, at four bytes each. -/
def room : Nat := (2 ^ 63 - 1) / 4

/-- The sum of two unsigned words. -/
def sum (a b : UInt64) : Except Fault UInt64 :=
  if a.toNat + b.toNat < 2 ^ 64 then .ok (a + b) else .error .overflow

/-- The position at a distance from another one, or the nearest position that is a word. -/
def shift (position : UInt64) (distance : Int64) : UInt64 :=
  .ofNat (min (position.toNat + distance.toInt).toNat (2 ^ 64 - 1))

/-- The position some steps before another one, or the first position. -/
def back (position steps : UInt64) : UInt64 := if steps ≤ position then position - steps else 0

/-- How far a distance goes, in either direction. -/
def extent (distance : Int64) : UInt64 := .ofNat distance.toInt.natAbs

/-- A text that is to be stored. -/
def stored (text : Text) : Except Fault Text :=
  if text.length ≤ room then .ok text else .error .memory

/-- The result of an operation that fails where a range is not within the text. -/
def inRange {α : Type} : Option α → Except Fault α
  | some a => .ok a
  | none => .error .range

/-! ## Small facts -/

theorem toNat_ofNat {n : Nat} (h : n < 2 ^ 64) : (UInt64.ofNat n).toNat = n :=
  UInt64.toNat_ofNat_of_lt' h

/-- A line that can be stored has positions far below the end of the words. -/
theorem lt_of_le_room {n : Nat} (h : n ≤ room) : n < 2 ^ 61 :=
  Nat.lt_of_le_of_lt h (by decide)

theorem sum_ofNat {m n : Nat} (h : m + n < 2 ^ 64) :
    sum (.ofNat m) (.ofNat n) = .ok (.ofNat (m + n)) := by
  rw [sum, toNat_ofNat (by omega), toNat_ofNat (by omega), if_pos h, UInt64.ofNat_add]

theorem toNat_shift (position : UInt64) (distance : Int64) :
    (shift position distance).toNat =
      min (position.toNat + distance.toInt).toNat (2 ^ 64 - 1) :=
  toNat_ofNat (Nat.lt_of_le_of_lt (Nat.min_le_right _ _) (by decide))

theorem back_ofNat {m n : Nat} (hm : m < 2 ^ 64) (hn : n < 2 ^ 64) :
    back (.ofNat m) (.ofNat n) = .ofNat (m - n) := by
  have hle : UInt64.ofNat n ≤ UInt64.ofNat m ↔ n ≤ m := by
    rw [UInt64.le_iff_toNat_le, toNat_ofNat hm, toNat_ofNat hn]
  rw [back]
  split
  · next hwithin => exact (UInt64.ofNat_sub (hle.mp hwithin)).symm
  · next hpast =>
    rw [Nat.sub_eq_zero_of_le (Nat.le_of_not_le (mt hle.mpr hpast))]
    rfl

/-- A position as a distance: from `2 ^ 63` on it means a negative one. -/
theorem toInt_toInt64 (position : UInt64) :
    position.toInt64.toInt =
      if position.toNat < 2 ^ 63 then (position.toNat : Int) else position.toNat - 2 ^ 64 := by
  change position.toBitVec.toInt = _
  rw [BitVec.toInt_eq_toNat_cond]
  change (if 2 * position.toNat < 2 ^ 64 then (position.toNat : Int) else
    position.toNat - ((2 ^ 64 : Nat) : Int)) = _
  split <;> split <;> omega

theorem toInt_toInt64_of_lt {position : UInt64} (h : position.toNat < 2 ^ 63) :
    position.toInt64.toInt = position.toNat := by
  rw [toInt_toInt64, if_pos h]

theorem toInt_toInt64_ofNat {n : Nat} (h : n < 2 ^ 63) : (UInt64.ofNat n).toInt64.toInt = n := by
  have hword : (UInt64.ofNat n).toNat = n := toNat_ofNat (by omega)
  rw [toInt_toInt64_of_lt (by rw [hword]; exact h), hword]

/-- A difference that is a word is the one of the integers. -/
theorem difference_of_word {a b : Int64} (hlower : -2 ^ 63 ≤ a.toInt - b.toInt)
    (hupper : a.toInt - b.toInt < 2 ^ 63) :
    difference a b = .ok (a - b) ∧ (a - b).toInt = a.toInt - b.toInt := by
  have hword : Int64.minValue.toInt ≤ a.toInt - b.toInt ∧
      a.toInt - b.toInt ≤ Int64.maxValue.toInt := by
    rw [Int64.toInt_minValue, Int64.toInt_maxValue]
    exact ⟨hlower, Int.le_sub_one_of_lt hupper⟩
  refine ⟨if_pos hword, ?_⟩
  rw [Int64.toInt_sub]
  exact Int.bmod_eq_of_le (by simpa using hlower) (by simpa using hupper)

/-- A difference that is too small overflows, and a machine that goes on all the same goes on with
`2 ^ 64` more. -/
theorem difference_of_lt {a b : Int64} (h : a.toInt - b.toInt < -2 ^ 63) :
    difference a b = .error .overflow ∧ (a - b).toInt = a.toInt - b.toInt + 2 ^ 64 := by
  have hlower := a.le_toInt
  have hupper := b.toInt_lt
  refine ⟨if_neg fun hword => ?_, ?_⟩
  · have hleast := hword.1
    rw [Int64.toInt_minValue] at hleast
    exact absurd hleast (Int.not_le.mpr h)
  · rw [Int64.toInt_sub, Int.bmod]
    omega

end Machine

namespace LineBuffer

variable {b : LineBuffer} {position : UInt64}

/-! ## Putting the cursor at a position -/

/-- The cursor can be put at a position.  Neither of the two positions is converted to another
number, the distance between them does not overflow, and the cursor ends up at the position that is
asked for, or at the end of a line that is shorter. -/
structure Arrives (b : LineBuffer) (position : UInt64) : Prop where
  target : position.toInt64.toInt = position.toNat
  start : (UInt64.ofNat b.cursor).toInt64.toInt = b.cursor
  distance : ∃ distance, b.distanceTo position = .ok distance ∧
    distance.toInt = position.toNat - b.cursor
  cursor : b.setCursor position = { b with cursor := min position.toNat b.length }

/-- The cursor moves by the distance, where that is a word. -/
theorem setCursor_eq_move {distance : Int64} (h : b.distanceTo position = .ok distance) :
    b.setCursor position = b.move distance.toInt := by
  rw [distanceTo, Machine.difference] at h
  split at h
  · cases h
    rfl
  · cases h

/-- **A position below `2 ^ 63` is reached.** -/
theorem arrives_of_lt (hcursor : b.cursor < 2 ^ 63) (h : position.toNat < 2 ^ 63) :
    b.Arrives position := by
  have htarget := Machine.toInt_toInt64_of_lt h
  have hstart := Machine.toInt_toInt64_ofNat hcursor
  obtain ⟨hword, hdistance⟩ := Machine.difference_of_word
    (a := position.toInt64) (b := (UInt64.ofNat b.cursor).toInt64) (by omega) (by omega)
  rw [htarget, hstart] at hdistance
  refine ⟨htarget, hstart, ⟨_, hword, hdistance⟩, ?_⟩
  have hsum : (b.cursor : Int) + (position.toNat - b.cursor) = position.toNat := by omega
  rw [setCursor_eq_move hword, hdistance, move, hsum, Int.toNat_natCast]
  rfl

/-- **A position from `2 ^ 63` on is not reached.**  It is converted to a negative number.  If the
distance to that overflows, and the machine goes on all the same, the cursor comes to the end of the
line.  If it does not, the cursor goes to the start. -/
theorem setCursor_of_ge (hcursor : b.cursor ≤ b.length) (hlength : b.length < 2 ^ 63)
    (h : 2 ^ 63 ≤ position.toNat) :
    if position.toNat < 2 ^ 63 + b.cursor then
      b.distanceTo position = .error .overflow ∧ b.setCursor position = b.place b.length
    else (∃ distance, b.distanceTo position = .ok distance ∧ distance.toInt < 0) ∧
      b.setCursor position = b.place 0 := by
  have hsize := position.toNat_lt
  have htarget : position.toInt64.toInt = position.toNat - 2 ^ 64 := by
    rw [Machine.toInt_toInt64, if_neg (Nat.not_lt.mpr h)]
  have hstart : (UInt64.ofNat b.cursor).toInt64.toInt = b.cursor :=
    Machine.toInt_toInt64_ofNat (Nat.lt_of_le_of_lt hcursor hlength)
  split
  · next hnear =>
    obtain ⟨hfault, hwrapped⟩ := Machine.difference_of_lt
      (a := position.toInt64) (b := (UInt64.ofNat b.cursor).toInt64) (by omega)
    refine ⟨hfault, ?_⟩
    change b.place (b.cursor + (position.toInt64 - (UInt64.ofNat b.cursor).toInt64).toInt).toNat = _
    rw [hwrapped, place, place]
    congr 1
    omega
  · next hfar =>
    obtain ⟨hword, hdistance⟩ := Machine.difference_of_word
      (a := position.toInt64) (b := (UInt64.ofNat b.cursor).toInt64) (by omega) (by omega)
    refine ⟨⟨_, hword, by omega⟩, ?_⟩
    rw [setCursor_eq_move hword, move]
    congr 1
    omega

/-- **Which positions the cursor can be put at**, in a line that can be stored: those below
`2 ^ 63`, and no others.  Of the others, those up to the cursor's distance from `2 ^ 63` overflow,
which takes the cursor to the end of the line or ends the program, and all the rest takes the cursor
to the start of the line. -/
theorem arrives_iff (hcursor : b.cursor ≤ b.length) (hroom : b.length ≤ Machine.room)
    (position : UInt64) :
    (b.Arrives position ↔ position.toNat < 2 ^ 63) ∧
      (2 ^ 63 ≤ position.toNat → position.toNat < 2 ^ 63 + b.cursor →
        b.distanceTo position = .error .overflow ∧ b.setCursor position = b.place b.length) ∧
      (2 ^ 63 + b.cursor ≤ position.toNat → b.setCursor position = b.place 0) := by
  have hlength : b.length < 2 ^ 63 := Nat.lt_trans (Machine.lt_of_le_room hroom) (by decide)
  refine ⟨⟨fun harrives => ?_, arrives_of_lt (Nat.lt_of_le_of_lt hcursor hlength)⟩,
    fun hge hnear => ?_, fun hfar => ?_⟩
  · have htarget := harrives.target
    rw [Machine.toInt_toInt64] at htarget
    split at htarget
    · assumption
    · omega
  · have hover := setCursor_of_ge hcursor hlength hge
    rwa [if_pos hnear] at hover
  · have hover := setCursor_of_ge hcursor hlength (Nat.le_trans (Nat.le_add_right _ _) hfar)
    rw [if_neg (Nat.not_lt.mpr hfar)] at hover
    exact hover.2

/-- The cursor is put behind the `b` of a line of three characters, and the largest word is not a
position that it can be put at. -/
theorem arrives_within_line :
    let b : LineBuffer := ⟨['a', 'b', 'c'], 0, [], false⟩
    b.cursor ≤ b.length ∧ b.length ≤ Machine.room ∧ b.Arrives 2 ∧
      b.setCursor 2 = { b with cursor := 2 } ∧ ¬b.Arrives (.ofNat (2 ^ 64 - 1)) := by
  intro b
  have hcursor : b.cursor ≤ b.length := by decide
  have hroom : b.length ≤ Machine.room := by decide
  have harrives : b.Arrives 2 := (arrives_iff hcursor hroom 2).1.mpr (by decide)
  exact ⟨hcursor, hroom, harrives, harrives.cursor,
    mt (arrives_iff hcursor hroom _).1.mp (by decide)⟩

/-- Whoever asks for the largest position, to get to the end of the line, gets to its start.  From
behind the last of three characters, the distance to `2 ^ 63` overflows. -/
theorem setCursor_largest :
    let b : LineBuffer := ⟨['a', 'b', 'c'], 3, [], false⟩
    (b.setCursor (.ofNat (2 ^ 64 - 1))).cursor = 0 ∧ b.length = 3 ∧
      (UInt64.ofNat (2 ^ 64 - 1)).toInt64.toInt = -1 ∧
      b.distanceTo (.ofNat (2 ^ 63)) = .error .overflow := by
  intro b
  refine ⟨by decide, by decide, by decide, ?_⟩
  exact (Machine.difference_of_lt (by decide)).1

end LineBuffer

end PromptLine
