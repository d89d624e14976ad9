import PromptLine.Key.Trie

/-!
# From code points to keystrokes

The key input holds the code points that no keystroke has taken yet.  Taking a keystroke removes
exactly its code points from the front, so that nothing is lost, repeated or reordered, and the
trie may be changed between two keystrokes.
-/

namespace PromptLine

/-- Code points waiting to be cut into keystrokes, and the trie that cuts them. -/
structure KeyInput where
  pending : Text
  trie : Trie
  deriving DecidableEq, Repr

namespace KeyInput

/-- Nothing is pending. -/
def start (trie : Trie) : KeyInput := ⟨[], trie⟩

/-- Appends input. -/
def feed (k : KeyInput) (text : Text) : KeyInput := { k with pending := k.pending ++ text }

/-- Changes the trie and keeps the input. -/
def setTrie (k : KeyInput) (trie : Trie) : KeyInput := { k with trie := trie }

/-- What the pending input amounts to. -/
def resolve (k : KeyInput) : Resolution := k.trie.resolve k.pending

/-- The next keystroke, left in place. -/
def peek? (k : KeyInput) : Option Stroke := k.resolve.stroke?

/-- Whether a keystroke can be taken now. -/
def isReady (k : KeyInput) : Bool := 0 < k.resolve.consumed

/-- The next keystroke, taken from the input. -/
def next? (k : KeyInput) : Option (Stroke × KeyInput) :=
  match k.peek? with
  | none => none
  | some stroke =>
    if stroke.length = 0 then none
    else some (stroke, { k with pending := k.pending.drop stroke.length })

/-- Every keystroke that can be taken, as long as `fuel` lasts. -/
def drainWithin : Nat → KeyInput → List Stroke × KeyInput
  | 0, k => ([], k)
  | fuel + 1, k =>
    match k.next? with
    | none => ([], k)
    | some (stroke, k) =>
      let (rest, k) := drainWithin fuel k
      (stroke :: rest, k)

/-- Every keystroke that can be taken.  Each one takes at least one code point, so the input's
length is fuel enough. -/
def drain (k : KeyInput) : List Stroke × KeyInput := drainWithin k.pending.length k

/-! ## Small facts -/

@[simp] theorem pending_feed (k : KeyInput) (text : Text) :
    (k.feed text).pending = k.pending ++ text := rfl

@[simp] theorem pending_setTrie (k : KeyInput) (trie : Trie) :
    (k.setTrie trie).pending = k.pending := rfl

/-- A keystroke that is taken is the one that was ready, and it takes something. -/
theorem next?_eq_some {k after : KeyInput} {stroke : Stroke} (h : k.next? = some (stroke, after)) :
    k.peek? = some stroke ∧ 0 < stroke.length ∧
      after = { k with pending := k.pending.drop stroke.length } := by
  unfold next? at h
  split at h
  · cases h
  · next ready hready =>
    split at h
    · cases h
    · next hlength =>
      cases h
      exact ⟨hready, Nat.pos_of_ne_zero hlength, rfl⟩

end KeyInput

end PromptLine
