import PromptLine.Text

/-!
# The kill ring

Text that was deleted or copied is kept so that it can be put back.  The ring holds a bounded
number of texts, one of which is current; it can be turned so that an earlier text becomes current.
-/

namespace PromptLine

/-- Deleted and copied texts, the current one first.  There is always room for one text. -/
structure KillRing where
  texts : List Text
  capacity : Nat
  room : 0 < capacity
  deriving DecidableEq, Repr

namespace KillRing

/-- How many texts a ring holds unless told otherwise. -/
def defaultCapacity : Nat := 10

/-- An empty ring. -/
def empty (capacity : Nat) : KillRing := ⟨[], max capacity 1, Nat.le_max_right capacity 1⟩

/-- The current text. -/
def current? (ring : KillRing) : Option Text := ring.texts.head?

/-- How many texts the ring holds. -/
def length (ring : KillRing) : Nat := ring.texts.length

/-- Adds a text, which becomes current.  A full ring gives up the text farthest from the current
one, and the empty text is not worth keeping. -/
def add (ring : KillRing) (text : Text) : KillRing :=
  if text = [] then ring else { ring with texts := (text :: ring.texts).take ring.capacity }

/-- Makes the text before the current one current. -/
def rotate (ring : KillRing) : KillRing :=
  match ring.texts with
  | [] => ring
  | text :: rest => { ring with texts := rest ++ [text] }

@[simp] theorem current?_empty (capacity : Nat) : (empty capacity).current? = none := rfl

@[simp] theorem add_nil (ring : KillRing) : ring.add [] = ring := rfl

/-- A text that was added is current. -/
theorem current?_add {ring : KillRing} {text : Text} (htext : text ≠ []) :
    (ring.add text).current? = some text := by
  obtain ⟨others, hcapacity⟩ := Nat.exists_eq_succ_of_ne_zero (Nat.ne_of_gt ring.room)
  have hkept : ((text :: ring.texts).take ring.capacity).head? = some text := by
    rw [hcapacity, List.take_succ_cons, List.head?_cons]
  rw [add, if_neg htext]
  exact hkept

end KillRing

end PromptLine
