import Mathlib.Data.List.DropRight
import PromptLine.Proofs.Line.MachineIntegers
import PromptLine.Proofs.Line.PartialOperations

/-!
# A line as two halves

What somebody who edits a line has in mind is the text before the cursor and the text behind it.
Inserting appends to the one, deleting takes from the other or from the end of the one, and moving
takes text over from one to the other.  Nothing can go wrong, for no position is ever computed.  A
`SplitBuffer` is such a pair, with a stack of earlier ones to go back to.

A `LineBuffer` has one text and a position in it instead, and a `MachineBuffer` is the same with the
position in a machine word.  There is much to go wrong: the distances that a machine is asked to go
reach from `-2 ^ 63` to `2 ^ 63 - 1`, a sum of a position and a distance may be no word, and a range
to be taken out may reach beyond the text.  None of this happens.  Whatever is done to a line, one
thing after another, the machine has the line of the two halves at every moment and gives the same
answers; or the line has become longer than a block of memory, and for want of memory the machine
stops (`run_inWords`).

The positions that the cursor is put at have to be below `2 ^ 63`, and at the end of
`PromptLine.Proofs.Line.MachineIntegers` is what becomes of others.
-/

namespace PromptLine

namespace LineBuffer

/-! ## What can be done to a line -/

/-- What can be done to a line, with distances and positions in machine words. -/
inductive Edit
  | insert (text : Text)
  | delete (distance : Int64)
  | move (distance : Int64)
  | setCursor (position : UInt64)
  | replace (text : Text)
  | clear
  | save
  | undo
  deriving DecidableEq, Repr

/-- The operation that an edit asks for. -/
def Edit.operation : Edit → Operation
  | .insert text => .insert text
  | .delete distance => .delete distance.toInt
  | .move distance => .move distance.toInt
  | .setCursor position => .setCursor position
  | .replace text => .replace text
  | .clear => .clear
  | .save => .save
  | .undo => .undo

/-- An edit that asks for no position beyond the signed words. -/
def Edit.Within : Edit → Prop
  | .setCursor position => position.toNat < 2 ^ 63
  | _ => True

/-- The buffer after an edit, and what the edit answers: undoing tells whether there was a state to
go back to. -/
def serve (b : LineBuffer) (edit : Edit) : LineBuffer × Option Bool :=
  (b.perform edit.operation, if edit = .undo then some b.undo?.isSome else none)

/-- The buffer after one edit after another, and their answers. -/
def run (b : LineBuffer) : List Edit → LineBuffer × List (Option Bool)
  | [] => (b, [])
  | edit :: rest =>
    (((b.serve edit).1.run rest).1, (b.serve edit).2 :: ((b.serve edit).1.run rest).2)

end LineBuffer

open LineBuffer (Edit)

/-! ## Two halves -/

/-- A line that is cut at its cursor. -/
structure Halves where
  before : Text
  after : Text
  deriving DecidableEq, Repr

namespace Halves

/-- The whole line. -/
def text (h : Halves) : Text := h.before ++ h.after

/-- Inserted text goes to the end of the first half. -/
def insert (h : Halves) (text : Text) : Halves := ⟨h.before ++ text, h.after⟩

/-- Deleting takes from the front of the second half, or from the end of the first. -/
def delete (h : Halves) (distance : Int) : Halves :=
  if 0 ≤ distance then ⟨h.before, h.after.drop (min distance.toNat h.after.length)⟩
  else ⟨h.before.rdrop (min (-distance).toNat h.before.length), h.after⟩

/-- Moving takes text over from one half to the other. -/
def move (h : Halves) (distance : Int) : Halves :=
  if 0 ≤ distance then
    let count := min distance.toNat h.after.length
    ⟨h.before ++ h.after.take count, h.after.drop count⟩
  else
    let count := min (-distance).toNat h.before.length
    ⟨h.before.rdrop count, h.before.rtake count ++ h.after⟩

/-- The line, cut at a position. -/
def cutAt (h : Halves) (position : Nat) : Halves := ⟨h.text.take position, h.text.drop position⟩

end Halves

/-- A line that is cut at its cursor, with the lines saved to go back to, the latest first. -/
structure SplitBuffer where
  now : Halves
  saved : List Halves
  deriving DecidableEq, Repr

namespace SplitBuffer

/-- An empty line. -/
def empty : SplitBuffer := ⟨⟨[], []⟩, []⟩

/-- The same stack under another line. -/
def withNow (s : SplitBuffer) (now : Halves) : SplitBuffer := { s with now := now }

/-- Saves the line on top of the stack.  If the stack is full it loses its bottom first. -/
def save (s : SplitBuffer) : SplitBuffer :=
  { s with saved := s.now ::
      if s.saved.length = LineBuffer.undoLimit then s.saved.dropLast else s.saved }

/-- The line after an edit, and what the edit answers. -/
def serve (s : SplitBuffer) : Edit → SplitBuffer × Option Bool
  | .insert text => (s.withNow (s.now.insert text), none)
  | .delete distance => (s.withNow (s.now.delete distance.toInt), none)
  | .move distance => (s.withNow (s.now.move distance.toInt), none)
  | .setCursor position => (s.withNow (s.now.cutAt position.toNat), none)
  | .replace text => (s.withNow ⟨text, []⟩, none)
  | .clear => (s.withNow ⟨[], []⟩, none)
  | .save => (s.save, none)
  | .undo =>
    match s.saved with
    | [] => (s, some false)
    | top :: rest => (⟨top, rest⟩, some true)

/-- The line after one edit after another, and their answers. -/
def run (s : SplitBuffer) : List Edit → SplitBuffer × List (Option Bool)
  | [] => (s, [])
  | edit :: rest =>
    (((s.serve edit).1.run rest).1, (s.serve edit).2 :: ((s.serve edit).1.run rest).2)

/-- At no moment of a run is the line longer than a block of memory. -/
def Storable (s : SplitBuffer) : List Edit → Prop
  | [] => s.now.text.length ≤ Machine.room
  | edit :: rest => s.now.text.length ≤ Machine.room ∧ (s.serve edit).1.Storable rest

instance decidableStorable :
    (s : SplitBuffer) → (edits : List Edit) → Decidable (s.Storable edits)
  | s, [] => inferInstanceAs (Decidable (s.now.text.length ≤ Machine.room))
  | s, edit :: rest =>
    have := decidableStorable (s.serve edit).1 rest
    inferInstanceAs (Decidable (_ ∧ (s.serve edit).1.Storable rest))

/-- The buffer with this line and the cursor between its halves. -/
def join (masked : Bool) (s : SplitBuffer) : LineBuffer where
  text := s.now.text
  cursor := s.now.before.length
  saved := s.saved.map fun h => (h.text, h.before.length)
  masked := masked

end SplitBuffer

/-! ## A line in machine words -/

/-- A line with its cursor in a machine word, and the saved states with theirs, the latest last. -/
structure MachineBuffer where
  text : Text
  cursor : UInt64
  saved : List (Text × UInt64)
  masked : Bool
  deriving DecidableEq, Repr

namespace MachineBuffer

open Text

/-- Moves the cursor to the nearest word, and no farther than the line goes. -/
def move (b : MachineBuffer) (distance : Int64) : MachineBuffer :=
  { b with cursor := .ofNat (min (Machine.shift b.cursor distance).toNat b.text.length) }

/-- Moves the cursor by its distance to a position. -/
def setCursor (b : MachineBuffer) (position : UInt64) : Except Fault MachineBuffer := do
  let distance ← Machine.difference position.toInt64 b.cursor.toInt64
  pure (b.move distance)

/-- Splits the tail off at the cursor, and puts it back behind the new text. -/
def insert (b : MachineBuffer) (text : Text) : Except Fault MachineBuffer := do
  let (front, tail) ← Machine.inRange (splitOff? b.text b.cursor.toNat)
  let line ← Machine.stored (front ++ text ++ tail)
  let cursor ← Machine.sum b.cursor (.ofNat text.length)
  pure { b with text := line, cursor := cursor }

/-- Drains the range behind the cursor, or the one before it. -/
def delete (b : MachineBuffer) (distance : Int64) : Except Fault MachineBuffer :=
  let count := Machine.extent distance
  if 0 ≤ distance then do
    let last ← Machine.sum b.cursor count
    let line ← Machine.inRange (drain? b.text b.cursor.toNat (min last.toNat b.text.length))
    pure { b with text := line }
  else do
    let first := Machine.back b.cursor count
    let line ← Machine.inRange (drain? b.text first.toNat b.cursor.toNat)
    pure { b with text := line, cursor := first }

/-- Stores another line. -/
def replace (b : MachineBuffer) (text : Text) : Except Fault MachineBuffer := do
  let line ← Machine.stored text
  pure { b with text := line, cursor := .ofNat line.length }

/-- Saves the text and the cursor.  If the stack is full its bottom is removed first. -/
def save (b : MachineBuffer) : MachineBuffer :=
  { b with saved :=
      (if b.saved.length = LineBuffer.undoLimit then b.saved.tail else b.saved) ++
        [(b.text, b.cursor)] }

/-- The line after an edit, and what the edit answers. -/
def serve (b : MachineBuffer) : Edit → Except Fault (MachineBuffer × Option Bool)
  | .insert text => do pure (← b.insert text, none)
  | .delete distance => do pure (← b.delete distance, none)
  | .move distance => pure (b.move distance, none)
  | .setCursor position => do pure (← b.setCursor position, none)
  | .replace text => do pure (← b.replace text, none)
  | .clear => do pure (← b.replace [], none)
  | .save => pure (b.save, none)
  | .undo =>
    match b.saved.getLast? with
    | none => pure (b, some false)
    | some (text, cursor) =>
      pure ({ b with text := text, cursor := cursor, saved := b.saved.dropLast }, some true)

/-- The line after one edit after another, and their answers.  The first fault ends the run. -/
def run (b : MachineBuffer) : List Edit → Except Fault (MachineBuffer × List (Option Bool))
  | [] => pure (b, [])
  | edit :: rest => do
    let (next, answer) ← b.serve edit
    let (last, answers) ← next.run rest
    pure (last, answer :: answers)

end MachineBuffer

/-- A line, put into machine words. -/
def LineBuffer.inWords (b : LineBuffer) : MachineBuffer where
  text := b.text
  cursor := .ofNat b.cursor
  saved := (b.saved.map fun state => (state.1, .ofNat state.2)).reverse
  masked := b.masked

/-! ## Cutting at a position -/

namespace Halves

variable (h : Halves)

theorem cutAt_add (count : Nat) :
    h.cutAt (h.before.length + count) = ⟨h.before ++ h.after.take count, h.after.drop count⟩ := by
  rw [cutAt, text, List.take_length_add_append, List.drop_length_add_append]

theorem cutAt_sub (count : Nat) :
    h.cutAt (h.before.length - count) =
      ⟨h.before.rdrop count, h.before.rtake count ++ h.after⟩ := by
  have hle : h.before.length - count ≤ h.before.length := Nat.sub_le _ _
  rw [cutAt, text, List.take_append_of_le_length hle, List.drop_append_of_le_length hle]
  rfl

/-- Text goes over from half to half exactly as far as the position of the cut goes. -/
theorem cutAt_add_distance (distance : Int) :
    h.cutAt (h.before.length + distance).toNat = h.move distance := by
  rw [move]
  split
  · next hforward =>
    have hposition : (h.before.length + distance).toNat = h.before.length + distance.toNat := by
      omega
    dsimp only
    rw [hposition, cutAt_add, ← List.take_eq_take_min, ← List.drop_eq_drop_min]
  · next hback =>
    have hposition : (h.before.length + distance).toNat =
        h.before.length - min (-distance).toNat h.before.length := by
      omega
    rw [hposition, cutAt_sub]

@[simp] theorem text_cutAt (position : Nat) : (h.cutAt position).text = h.text :=
  List.take_append_drop position h.text

end Halves

/-- A stack that is full loses its bottom, and otherwise everything on it stays. -/
theorem LineBuffer.saved_save {b : LineBuffer} (h : b.saved.length ≤ undoLimit) :
    b.save.saved =
      (b.text, b.cursor) :: if b.saved.length = undoLimit then b.saved.dropLast else b.saved := by
  change (b.text, b.cursor) :: b.saved.take (undoLimit - 1) = _
  congr 1
  split
  · next hfull => rw [List.dropLast_eq_take, hfull]
  · next hspace => exact List.take_of_length_le (by omega)

/-! ## Joining the halves -/

namespace SplitBuffer

variable {masked : Bool} {s : SplitBuffer} {edit : Edit}

@[simp] theorem before_join : (s.join masked).before = s.now.before := List.take_left

@[simp] theorem after_join : (s.join masked).after = s.now.after := List.drop_left

theorem place_join (position : Nat) :
    (s.join masked).place position = (s.withNow (s.now.cutAt position)).join masked := by
  have hcursor : (s.now.cutAt position).before.length = min position s.now.text.length :=
    List.length_take
  simp only [LineBuffer.place, LineBuffer.length, join, withNow, Halves.text_cutAt, hcursor]

theorem move_join (distance : Int) :
    (s.join masked).move distance = (s.withNow (s.now.move distance)).join masked := by
  rw [← Halves.cutAt_add_distance]
  exact place_join _

theorem setCursor_join {position : UInt64} (hroom : s.now.text.length ≤ Machine.room)
    (h : position.toNat < 2 ^ 63) :
    (s.join masked).setCursor position =
      (s.withNow (s.now.cutAt position.toNat)).join masked := by
  have hcursor : (s.join masked).cursor ≤ s.now.text.length := by
    simp [join, Halves.text]
  have hlength := Machine.lt_of_le_room hroom
  rw [← place_join]
  exact (LineBuffer.arrives_of_lt (by omega) h).cursor

theorem insert_join (text : Text) :
    (s.join masked).insert text = (s.withNow (s.now.insert text)).join masked := by
  rw [LineBuffer.insert, before_join, after_join]
  simp only [join, withNow, Halves.insert, Halves.text, List.length_append]

theorem delete_join (distance : Int) :
    (s.join masked).delete distance = (s.withNow (s.now.delete distance)).join masked := by
  rw [LineBuffer.delete, Halves.delete]
  split
  · next hforward =>
    have hcount : distance.natAbs = distance.toNat := by omega
    rw [LineBuffer.eraseAfter, before_join, after_join, hcount, ← List.drop_eq_drop_min]
    rfl
  · next hback =>
    have hkept : s.now.before.length - distance.natAbs =
        s.now.before.length - min (-distance).toNat s.now.before.length := by
      omega
    have hle : s.now.before.length - min (-distance).toNat s.now.before.length ≤
        s.now.before.length := Nat.sub_le _ _
    rw [LineBuffer.eraseBefore, after_join]
    simp only [join, withNow, Halves.text, List.rdrop, hkept, List.take_append_of_le_length hle,
      List.length_take, Nat.min_eq_left hle]

theorem save_join (h : s.saved.length ≤ LineBuffer.undoLimit) :
    (s.join masked).save = s.save.join masked := by
  have hcount : (s.join masked).saved.length = s.saved.length := List.length_map _
  have hstack := LineBuffer.saved_save (hcount.le.trans h)
  rw [hcount] at hstack
  refine LineBuffer.mk.injEq .. |>.mpr ⟨rfl, rfl, hstack.trans ?_, rfl⟩
  rw [save, List.map_cons]
  split
  · rw [List.map_dropLast]
    rfl
  · rfl

/-- **An edit of the two halves** is an edit of the line. -/
theorem serve_join (hsaved : s.saved.length ≤ LineBuffer.undoLimit)
    (hroom : s.now.text.length ≤ Machine.room) (hedit : edit.Within) :
    (s.join masked).serve edit = ((s.serve edit).1.join masked, (s.serve edit).2) := by
  cases edit with
  | insert text => exact Prod.ext (insert_join text) rfl
  | delete distance => exact Prod.ext (delete_join distance.toInt) rfl
  | move distance => exact Prod.ext (move_join distance.toInt) rfl
  | setCursor position => exact Prod.ext (setCursor_join hroom hedit) rfl
  | replace text =>
    refine Prod.ext ?_ rfl
    change LineBuffer.mk text text.length _ _ = LineBuffer.mk (text ++ []) text.length _ _
    rw [List.append_nil]
    rfl
  | clear => rfl
  | save => exact Prod.ext (save_join hsaved) rfl
  | undo =>
    obtain ⟨now, saved⟩ := s
    cases saved <;> rfl

end SplitBuffer

/-! ## Putting the line into machine words -/

namespace LineBuffer

variable {b : LineBuffer} {edit : Edit}

/-- The cursor is within the line, neither the line nor any saved one is too long to be stored, and
no more of them are saved than the stack has room for. -/
structure Stored (b : LineBuffer) : Prop extends b.Sound where
  line : b.length ≤ Machine.room
  lines : ∀ state ∈ b.saved, state.1.length ≤ Machine.room
  count : b.saved.length ≤ undoLimit

theorem stored_empty (masked : Bool) : (empty masked).Stored where
  toSound := sound_empty masked
  line := Nat.zero_le _
  lines := fun _ hstate => nomatch hstate
  count := Nat.zero_le _

theorem Stored.cursor_lt (h : b.Stored) : b.cursor < 2 ^ 61 :=
  Machine.lt_of_le_room (Nat.le_trans h.cursor h.line)

/-- The cursor of a line that can be stored is a word. -/
theorem toNat_cursor_inWords (h : b.Stored) : b.inWords.cursor.toNat = b.cursor :=
  Machine.toNat_ofNat (Nat.lt_trans h.cursor_lt (by decide))

theorem move_inWords (h : b.Stored) (distance : Int64) :
    b.inWords.move distance = (b.move distance.toInt).inWords := by
  have hlength := Machine.lt_of_le_room h.line
  have hposition : min (min (b.cursor + distance.toInt).toNat (2 ^ 64 - 1)) b.length =
      min (b.cursor + distance.toInt).toNat b.length := by
    omega
  rw [MachineBuffer.move, Machine.toNat_shift, toNat_cursor_inWords h]
  exact congrArg (fun position => { b.inWords with cursor := UInt64.ofNat position }) hposition

theorem setCursor_inWords (h : b.Stored) {position : UInt64} (hposition : position.toNat < 2 ^ 63) :
    b.inWords.setCursor position = .ok (b.setCursor position).inWords := by
  have hcursor : b.cursor < 2 ^ 63 := Nat.lt_trans h.cursor_lt (by decide)
  obtain ⟨distance, hdistance, -⟩ := (arrives_of_lt hcursor hposition).distance
  rw [setCursor_eq_move hdistance, ← move_inWords h]
  change (b.distanceTo position).bind _ = _
  rw [hdistance]
  rfl

/-- **Inserting** adds a position and a length, and both are small. -/
theorem insert_inWords (h : b.Stored) (text : Text) :
    b.inWords.insert text =
      if (b.insert text).length ≤ Machine.room then .ok (b.insert text).inWords
      else .error .memory := by
  have hsplit : Text.splitOff? b.text b.cursor = some (b.before, b.after) :=
    Text.splitOff?_of_le h.cursor
  rw [MachineBuffer.insert, toNat_cursor_inWords h]
  change (Machine.inRange (Text.splitOff? b.text b.cursor)).bind _ = _
  rw [hsplit]
  change (if (b.insert text).length ≤ Machine.room then _ else _ : Except Fault Text).bind _ = _
  split
  · next hroom =>
    have hsum : b.cursor + text.length < 2 ^ 64 := by
      have hlength := Machine.lt_of_le_room hroom
      have hcursor := h.cursor
      rw [length_insert] at hlength
      omega
    change (Machine.sum (.ofNat b.cursor) (.ofNat text.length)).bind _ = _
    rw [Machine.sum_ofNat hsum]
    rfl
  · rfl

/-- **Deleting** adds a position and a distance.  The position is so small that the sum is a word
even for the largest distance. -/
theorem delete_inWords (h : b.Stored) (distance : Int64) :
    b.inWords.delete distance = .ok (b.delete distance.toInt).inWords := by
  have hcursor := h.cursor_lt
  have hlower := distance.le_toInt
  have hupper := distance.toInt_lt
  have hsign : 0 ≤ distance ↔ 0 ≤ distance.toInt := Int64.le_iff_toInt_le
  have hdelete := delete?_eq h.cursor distance.toInt
  rw [delete?] at hdelete
  rw [MachineBuffer.delete, toNat_cursor_inWords h]
  split at hdelete
  · next hforward =>
    obtain ⟨line, hdrain, hline⟩ := Option.bind_eq_some_iff.mp hdelete
    have hsum : b.cursor + distance.toInt.natAbs < 2 ^ 64 := by omega
    rw [if_pos (hsign.mpr hforward)]
    change (Machine.sum (.ofNat b.cursor) (.ofNat distance.toInt.natAbs)).bind _ = _
    rw [Machine.sum_ofNat hsum]
    change (Machine.inRange
      (Text.drain? b.text b.cursor (min (UInt64.ofNat _).toNat b.length))).bind _ = _
    rw [Machine.toNat_ofNat hsum, hdrain, ← Option.some.inj hline]
    rfl
  · next hback =>
    obtain ⟨line, hdrain, hline⟩ := Option.bind_eq_some_iff.mp hdelete
    have hfirst : Machine.back (.ofNat b.cursor) (Machine.extent distance) =
        .ofNat (b.cursor - distance.toInt.natAbs) :=
      Machine.back_ofNat (by omega) (by omega)
    rw [if_neg (mt hsign.mp hback)]
    change (Machine.inRange
      (Text.drain? b.text (Machine.back (.ofNat b.cursor) _).toNat b.cursor)).bind _ = _
    rw [hfirst, Machine.toNat_ofNat (by omega), hdrain, ← Option.some.inj hline]
    exact congrArg (fun first => Except.ok { b.inWords with text := line, cursor := first }) hfirst

theorem replace_inWords (text : Text) :
    b.inWords.replace text =
      if (b.replace text).length ≤ Machine.room then .ok (b.replace text).inWords
      else .error .memory := by
  change (if text.length ≤ Machine.room then _ else _ : Except Fault Text).bind _ = _
  split
  · next hroom => exact (if_pos hroom).symm
  · next hlong => exact (if_neg hlong).symm

theorem save_inWords (h : b.saved.length ≤ undoLimit) : b.inWords.save = b.save.inWords := by
  have hcount : b.inWords.saved.length = b.saved.length := by
    rw [inWords, List.length_reverse, List.length_map]
  refine MachineBuffer.mk.injEq .. |>.mpr ⟨rfl, rfl, ?_, rfl⟩
  rw [hcount, saved_save h, List.map_cons, List.reverse_cons]
  split
  · rw [List.map_dropLast, ← List.tail_reverse]
    rfl
  · rfl

theorem undo_inWords (b : LineBuffer) :
    b.inWords.serve .undo = .ok ((b.serve .undo).1.inWords, (b.serve .undo).2) := by
  obtain ⟨text, cursor, saved, masked⟩ := b
  cases saved with
  | nil => rfl
  | cons top rest =>
    have htop (states : List (Text × UInt64)) (state : Text × UInt64) :
        (states ++ [state]).getLast? = some state ∧ (states ++ [state]).dropLast = states :=
      ⟨List.getLast?_concat, List.dropLast_concat⟩
    simp only [MachineBuffer.serve, inWords, List.map_cons, List.reverse_cons, htop]
    rfl

/-- No edit but inserting and replacing makes a line longer than it was, or than a saved one. -/
theorem Stored.serve (h : b.Stored) (hroom : (b.serve edit).1.length ≤ Machine.room) :
    (b.serve edit).1.Stored := by
  have hsound : (b.serve edit).1.Sound := h.toSound.perform edit.operation
  cases edit with
  | save =>
    refine ⟨hsound, hroom, fun state hstate => ?_, List.length_take_le _ _⟩
    rcases List.mem_cons.mp (List.mem_of_mem_take hstate) with rfl | hsaved
    · exact h.line
    · exact h.lines state hsaved
  | undo =>
    obtain ⟨text, cursor, saved, masked⟩ := b
    cases saved with
    | nil => exact h
    | cons top rest =>
      exact ⟨hsound, hroom, fun state hstate => h.lines state (List.mem_cons_of_mem _ hstate),
        Nat.le_of_succ_le h.count⟩
  | delete distance =>
    have hsaved : (b.delete distance.toInt).saved = b.saved := by
      rw [delete]
      split <;> rfl
    refine ⟨hsound, hroom, ?_, ?_⟩
    · change ∀ state ∈ (b.delete distance.toInt).saved, _
      rw [hsaved]
      exact h.lines
    · change (b.delete distance.toInt).saved.length ≤ _
      rw [hsaved]
      exact h.count
  | _ => exact ⟨hsound, hroom, h.lines, h.count⟩

theorem length_delete_le (b : LineBuffer) (distance : Int) :
    (b.delete distance).length ≤ b.length := by
  rw [delete]
  split
  · simp only [length, eraseAfter, before, after, List.length_append, List.length_take,
      List.length_drop]
    omega
  · simp only [length, eraseBefore, after, List.length_append, List.length_take, List.length_drop]
    omega

theorem length_undo_le (h : b.Stored) : (b.serve .undo).1.length ≤ Machine.room := by
  obtain ⟨text, cursor, saved, masked⟩ := b
  cases saved with
  | nil => exact h.line
  | cons top rest => exact h.lines top List.mem_cons_self

/-- **An edit of the line** is an edit of the line in machine words, unless the line becomes too
long. -/
theorem serve_inWords (h : b.Stored) (hedit : edit.Within) :
    b.inWords.serve edit =
      if (b.serve edit).1.length ≤ Machine.room then
        .ok ((b.serve edit).1.inWords, (b.serve edit).2)
      else .error .memory := by
  cases edit with
  | insert text =>
    change (b.inWords.insert text).bind _ = _
    rw [insert_inWords h]
    split
    · next hroom => exact (if_pos hroom).symm
    · next hlong => exact (if_neg hlong).symm
  | delete distance =>
    change (b.inWords.delete distance).bind _ = _
    rw [delete_inWords h]
    exact (if_pos (Nat.le_trans (b.length_delete_le _) h.line)).symm
  | move distance =>
    change Except.ok (b.inWords.move distance, none) = _
    rw [move_inWords h]
    exact (if_pos h.line).symm
  | setCursor position =>
    change (b.inWords.setCursor position).bind _ = _
    rw [setCursor_inWords h hedit]
    exact (if_pos h.line).symm
  | replace text =>
    change (b.inWords.replace text).bind _ = _
    rw [replace_inWords]
    split
    · next hroom => exact (if_pos hroom).symm
    · next hlong => exact (if_neg hlong).symm
  | clear => exact (if_pos (Nat.zero_le _)).symm
  | save =>
    change Except.ok (b.inWords.save, none) = _
    rw [save_inWords h.count]
    exact (if_pos h.line).symm
  | undo =>
    rw [undo_inWords]
    exact (if_pos (length_undo_le h)).symm

end LineBuffer

/-! ## Runs -/

namespace SplitBuffer

variable {masked : Bool} {s : SplitBuffer} {edits : List Edit}

theorem Storable.now (h : s.Storable edits) : s.now.text.length ≤ Machine.room := by
  cases edits with
  | nil => exact h
  | cons edit rest => exact h.1

/-- **A run of the two halves** is a run of the line and of the line in machine words, up to where
the line becomes too long. -/
theorem run_join (hstored : (s.join masked).Stored) (hedits : ∀ edit ∈ edits, edit.Within) :
    (s.Storable edits →
      (s.join masked).run edits = ((s.run edits).1.join masked, (s.run edits).2)) ∧
      (s.join masked).inWords.run edits =
        if s.Storable edits then .ok (((s.run edits).1.join masked).inWords, (s.run edits).2)
        else .error .memory := by
  induction edits generalizing s with
  | nil => exact ⟨fun _ => rfl, (if_pos hstored.line).symm⟩
  | cons edit rest ih =>
    obtain ⟨hedit, hrest⟩ := List.forall_mem_cons.mp hedits
    have hcount : s.saved.length ≤ LineBuffer.undoLimit := by
      have hjoined := hstored.count
      rwa [join, List.length_map] at hjoined
    have hserve : (s.join masked).serve edit = ((s.serve edit).1.join masked, (s.serve edit).2) :=
      serve_join hcount hstored.line hedit
    have hwords := LineBuffer.serve_inWords hstored hedit
    have hstorable : s.Storable (edit :: rest) ↔ (s.serve edit).1.Storable rest :=
      and_iff_right hstored.line
    simp only [LineBuffer.run, MachineBuffer.run, run, hstorable, hwords, hserve]
    by_cases hroom : ((s.serve edit).1.join masked).length ≤ Machine.room
    · have hnext : ((s.serve edit).1.join masked).Stored := by
        have hedited : ((s.join masked).serve edit).1.length ≤ Machine.room := by
          rw [hserve]
          exact hroom
        have hkept := hstored.serve hedited
        rwa [hserve] at hkept
      obtain ⟨hline, hmachine⟩ := ih hnext hrest
      refine ⟨fun h => ?_, ?_⟩
      · rw [hline h]
      · rw [if_pos hroom]
        change ((((s.serve edit).1.join masked).inWords.run rest).bind _) = _
        rw [hmachine]
        split <;> rfl
    · have hlong : ¬(s.serve edit).1.Storable rest := mt Storable.now hroom
      refine ⟨fun h => absurd h hlong, ?_⟩
      rw [if_neg hroom, if_neg hlong]
      rfl

end SplitBuffer

namespace MachineBuffer

/-- **A line behaves like the two halves around its cursor.**  Whatever is done to an empty line,
one edit after another, the machine has the line whose halves the same edits make, and the same
states to go back to, and its undoing tells the same.  The one thing that can come in between is
that a line is longer than a block of memory; no sum and no difference overflows, and no range is
outside the text.  The clamped arithmetic on numbers without bounds comes to the same line. -/
theorem run_inWords (masked : Bool) (edits : List Edit) (hedits : ∀ edit ∈ edits, edit.Within) :
    (LineBuffer.empty masked).inWords.run edits =
        (if SplitBuffer.empty.Storable edits then
          .ok (((SplitBuffer.empty.run edits).1.join masked).inWords,
            (SplitBuffer.empty.run edits).2)
        else .error .memory) ∧
      (SplitBuffer.empty.Storable edits →
        (LineBuffer.empty masked).run edits =
          ((SplitBuffer.empty.run edits).1.join masked, (SplitBuffer.empty.run edits).2)) :=
  (SplitBuffer.run_join (s := .empty) (LineBuffer.stored_empty masked) hedits).symm

/-- From behind the first of three characters the farthest distance back takes away just that one,
and of two states to go back to there is one. -/
theorem run_inWords_farthest :
    let edits : List Edit := [.insert ['a', 'b', 'c'], .move Int64.maxValue, .setCursor 1, .save,
      .delete Int64.minValue, .delete Int64.maxValue, .undo, .undo]
    (∀ edit ∈ edits, edit.Within) ∧
      (LineBuffer.empty false).inWords.run edits =
        .ok (⟨['a', 'b', 'c'], 1, [], false⟩,
          [none, none, none, none, none, none, some true, some false]) := by
  intro edits
  have hwithin : ∀ edit ∈ edits, edit.Within := by
    simp [edits, Edit.Within]
  refine ⟨hwithin, ?_⟩
  rw [(run_inWords false edits hwithin).1, if_pos (by decide)]
  rfl

end MachineBuffer

end PromptLine
