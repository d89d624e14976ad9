/-!
# Properties of code points as tables

A property of code points is data of a standard.  It is kept here as ascending ranges, and a case
mapping as runs of letters whose images keep their distance.  Both forms are small enough to read,
and a look-up is a recursion over a list that a proof can follow.

White space and control characters have so few ranges that they need no module of their own.
-/

namespace PromptLine.Unicode

/-- Membership in ascending ranges.  The scan stops at the first range that starts past `n`. -/
def covers : List (Nat × Nat) → Nat → Bool
  | [], _ => false
  | (first, last) :: rest, n =>
    if n < first then false else if n ≤ last then true else covers rest n

/-- Every `stride`-th code point from `first` to `last`; `image` is where `first` maps to, and all
others keep their distance from it. -/
structure CaseRun where
  first : Nat
  last : Nat
  stride : Nat
  image : Nat

/-- Where a run sends a code point, if the code point is in the run. -/
def CaseRun.imageOf? (run : CaseRun) (n : Nat) : Option Nat :=
  if run.first ≤ n ∧ n ≤ run.last ∧ (n - run.first) % run.stride = 0 then
    some (run.image + (n - run.first))
  else
    none

/-- The image of a code point under a case mapping.  A code point in neither table is its own
image. -/
def mapCase (runs : List CaseRun) (expansions : List (Nat × List Nat)) (c : Char) : List Char :=
  match runs.findSome? (·.imageOf? c.toNat) with
  | some n => [Char.ofNat n]
  | none =>
    match expansions.lookup c.toNat with
    | some ns => ns.map Char.ofNat
    | none => [c]

/-- The property White_Space. -/
def isBlank (c : Char) : Bool :=
  covers [(0x09, 0x0D), (0x20, 0x20), (0x85, 0x85), (0xA0, 0xA0), (0x1680, 0x1680),
    (0x2000, 0x200A), (0x2028, 0x2029), (0x202F, 0x202F), (0x205F, 0x205F), (0x3000, 0x3000)]
    c.toNat

/-- The general category Cc: the two blocks of control codes. -/
def isControl (c : Char) : Bool :=
  covers [(0x00, 0x1F), (0x7F, 0x9F)] c.toNat

end PromptLine.Unicode
