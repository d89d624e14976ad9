/-!
# Arithmetic in machine words

Numbers are unbounded in this library, and the words of a machine are not.  A sum or a difference
that is too large for its word is a *fault*.  A machine that checks its sums stops there, and one
that does not goes on with the part of the result that the word can hold.

`Computed` is about both machines.  It has the value that the second one goes on with, and the fault
at which the first one stops.  As long as there is none they come to the same.
-/

namespace PromptLine

/-- Why an operation of a machine comes to no result. -/
inductive Fault
  /-- A sum or a difference is no word. -/
  | overflow
  /-- A range does not lie within the text. -/
  | range
  /-- A text is too long to be stored. -/
  | memory
  deriving DecidableEq, Repr

/-- What a computation in machine words comes to. -/
structure Computed (α : Type) where
  /-- What a machine comes to that does not check its sums. -/
  value : α
  /-- The first fault, at which a machine stops that checks them. -/
  fault : Option Fault
  deriving DecidableEq, Repr

namespace Computed

instance : Monad Computed where
  pure value := ⟨value, none⟩
  bind first further :=
    ⟨(further first.value).value, first.fault.or (further first.value).fault⟩

/-- What a machine comes to that checks its sums. -/
def checked {α : Type} (c : Computed α) : Except Fault α :=
  match c.fault with
  | none => .ok c.value
  | some fault => .error fault

end Computed

namespace Machine

/-- The word after a word. -/
def next (word : UInt16) : Computed UInt16 :=
  ⟨word + 1, if word.toNat + 1 < UInt16.size then none else some .overflow⟩

/-- The difference of two signed words. -/
def difference (a b : Int64) : Except Fault Int64 :=
  if Int64.minValue.toInt ≤ a.toInt - b.toInt ∧ a.toInt - b.toInt ≤ Int64.maxValue.toInt then
    .ok (a - b)
  else .error .overflow

end Machine

end PromptLine
