import PromptLine.Key.Stroke

/-!
# The trie of bound sequences

Input is cut into keystrokes by the longest bound sequence it starts with.  The bound sequences
are kept as a tree of their prefixes, so that one walk along the input finds both the longest match
and whether a longer one is still possible:

* the longest bound sequence that the input starts with wins, even where a longer one could follow
  with more input;
* with no match, input that could still grow into a bound sequence waits;
* otherwise its first code point is a keystroke by itself.

A node's children are a chain of siblings.  That makes the tree one plain inductive type, and every
function on it a structural recursion.
-/

namespace PromptLine

/-- The ways to continue a prefix: one code point with what is bound at it and what lies below it,
and then the other code points that can stand at the same place. -/
inductive Branches
  | nil
  | cons (c : Char) (bound : Option Stroke) (below others : Branches)
  deriving DecidableEq, Repr

namespace Branches

/-- A single path with a binding at its end. -/
def path (c : Char) (stroke : Stroke) : Text → Branches
  | [] => cons c (some stroke) nil nil
  | d :: rest => cons c none (path d stroke rest) nil

/-- Binds the sequence `c :: rest`, replacing what was bound to it before. -/
def insert (stroke : Stroke) : Branches → Char → Text → Branches
  | nil, c, rest => path c stroke rest
  | cons d bound below others, c, rest =>
    if c = d then
      match rest with
      | [] => cons d (some stroke) below others
      | e :: rest => cons d bound (insert stroke below e rest) others
    else
      cons d bound below (insert stroke others c rest)

/-- What the longest bound sequence is that the input starts with. -/
def longest? : Branches → Text → Option Stroke
  | nil, _ => none
  | cons _ _ _ _, [] => none
  | cons d bound below others, c :: rest =>
    if c = d then (longest? below rest).or bound else longest? others (c :: rest)

/-- Whether the input is a proper prefix of a path. -/
def continues : Branches → Text → Bool
  | nil, _ => false
  | cons _ _ _ _, [] => true
  | cons d _ below others, c :: rest =>
    if c = d then continues below rest else continues others (c :: rest)

/-- How many sequences are bound. -/
def count : Branches → Nat
  | nil => 0
  | cons _ bound below others => (if bound.isSome then 1 else 0) + count below + count others

/-- The length of the longest path.  Paths end in bindings, so it is also the length of the longest
bound sequence. -/
def depth : Branches → Nat
  | nil => 0
  | cons _ _ below others => max (1 + depth below) (depth others)

end Branches

/-- The bound sequences of a key table.  The empty sequence can be inserted, but no input is ever
resolved to it. -/
structure Trie where
  empty : Option Stroke
  branches : Branches
  deriving DecidableEq, Repr

/-- What the pending input amounts to. -/
inductive Resolution
  /-- A bound sequence. -/
  | matched (stroke : Stroke)
  /-- The beginning of a bound sequence. -/
  | incomplete
  /-- Nothing that is bound: the first code point stands alone. -/
  | unbound (stroke : Stroke)
  /-- Nothing at all. -/
  | nothing
  deriving DecidableEq, Repr

namespace Resolution

/-- The keystroke that is ready to be taken. -/
def stroke? : Resolution → Option Stroke
  | matched stroke => some stroke
  | unbound stroke => some stroke
  | incomplete => none
  | nothing => none

/-- How much of the input the keystroke takes. -/
def consumed (resolution : Resolution) : Nat := (resolution.stroke?.map Stroke.length).getD 0

end Resolution

namespace Trie

/-- Nothing is bound. -/
def nil : Trie := ⟨none, .nil⟩

/-- Binds a sequence.  The keystroke inserted last stays. -/
def insert (trie : Trie) (stroke : Stroke) : Trie :=
  match stroke.sequence with
  | [] => { trie with empty := some stroke }
  | c :: rest => { trie with branches := trie.branches.insert stroke c rest }

/-- The trie of a list of bindings. -/
def ofList (strokes : List Stroke) : Trie := strokes.foldl insert nil

/-- How many sequences are bound, the empty one included. -/
def count (trie : Trie) : Nat := (if trie.empty.isSome then 1 else 0) + trie.branches.count

/-- The length of the longest bound sequence. -/
def maxLength (trie : Trie) : Nat := trie.branches.depth

/-- Resolves the pending input. -/
def resolve (trie : Trie) : Text → Resolution
  | [] => .nothing
  | c :: rest =>
    match trie.branches.longest? (c :: rest) with
    | some stroke => .matched stroke
    | none => if trie.branches.continues (c :: rest) then .incomplete else .unbound (.ofChar c)

@[simp] theorem resolve_nil (trie : Trie) : trie.resolve [] = .nothing := rfl

end Trie

end PromptLine
