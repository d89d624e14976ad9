import PromptLine.Key.Trie

/-!
# Key tables

A key table is a finite map from sequences to values, in the order in which they were bound.  No
sequence is bound twice and the empty one never: an operation that would break this is refused and
changes nothing.  A table is frozen together with the trie of its sequences, which is what input
is cut by.
-/

namespace PromptLine

/-- Why a binding was refused.  Sequences are given in caret notation. -/
inductive BindingError
  | duplicate (sequence : String)
  | empty
  | missing (sequence : String)
  | unknownCommand (name : Text)
  deriving DecidableEq, Repr

/-- Bindings that can still be changed. -/
structure Bindings (α : Type) where
  entries : List (Stroke × α)
  deriving DecidableEq, Repr

namespace Bindings

variable {α : Type}

/-- Nothing is bound. -/
def nil : Bindings α := ⟨[]⟩

/-- The value bound to a keystroke. -/
def get? (b : Bindings α) (stroke : Stroke) : Option α :=
  (b.entries.find? fun entry => entry.1.same stroke).map (·.2)

/-- Whether a keystroke is bound. -/
def contains (b : Bindings α) (stroke : Stroke) : Bool :=
  b.entries.any fun entry => entry.1.same stroke

/-- How many sequences are bound. -/
def length (b : Bindings α) : Nat := b.entries.length

/-- Why a keystroke cannot be bound anew. -/
def obstacle? (b : Bindings α) (stroke : Stroke) : Option BindingError :=
  if stroke.sequence = [] then some .empty
  else if b.contains stroke then some (.duplicate (caretText stroke.sequence))
  else none

/-- Binds a keystroke that is not bound yet. -/
def bind (b : Bindings α) (stroke : Stroke) (value : α) : Except BindingError (Bindings α) :=
  match b.obstacle? stroke with
  | some error => .error error
  | none => .ok ⟨b.entries ++ [(stroke, value)]⟩

/-- Binds a sequence that is not the sequence of a named key. -/
def bindSequence (b : Bindings α) (sequence : Text) (value : α) :
    Except BindingError (Bindings α) :=
  b.bind (.ofSequence sequence) value

/-- Moves the value of one keystroke to another.  A keystroke is moved to itself without a
complaint, bound or not. -/
def rebind (b : Bindings α) (old new : Stroke) : Except BindingError (Bindings α) :=
  if old.same new then .ok b
  else if b.contains old = false then .error (.missing (caretText old.sequence))
  else
    match b.obstacle? new with
    | some error => .error error
    | none => .ok ⟨b.entries.map fun entry => if entry.1.same old then (new, entry.2) else entry⟩

/-- The bound keystrokes. -/
def strokes (b : Bindings α) : List Stroke := b.entries.map (·.1)

end Bindings

/-- Frozen bindings with the trie of their sequences. -/
structure Keymap (α : Type) where
  bindings : Bindings α
  trie : Trie
  deriving DecidableEq, Repr

namespace Keymap

variable {α : Type}

/-- Freezes bindings. -/
def ofBindings (b : Bindings α) : Keymap α := ⟨b, .ofList b.strokes⟩

/-- The value bound to a keystroke. -/
def get? (table : Keymap α) (stroke : Stroke) : Option α := table.bindings.get? stroke

/-- Binds one more sequence, freezing the result. -/
def bindSequence (table : Keymap α) (sequence : Text) (value : α) :
    Except BindingError (Keymap α) :=
  (table.bindings.bindSequence sequence value).map ofBindings

@[simp] theorem bindings_ofBindings (b : Bindings α) : (ofBindings b).bindings = b := rfl

@[simp] theorem trie_ofBindings (b : Bindings α) : (ofBindings b).trie = .ofList b.strokes := rfl

end Keymap

end PromptLine
