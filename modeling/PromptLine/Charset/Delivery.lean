import PromptLine.Charset.Decoder

/-!
# Handing decoded text to a consumer

A decoder can be given a consumer, which receives text in batches of bounded size.  Text that is
decoded while there is no consumer is retained, and the next consumer gets it first.  A consumer
is not a value of this model: what is kept is whether there is one, and each operation answers
with the batches it hands over.
-/

namespace PromptLine

/-- The largest batch a consumer is given. -/
def batchSize : Nat := 256

/-- A text cut into batches, all of them full but the last. -/
def batches (text : Text) : List Text :=
  match text with
  | [] => []
  | c :: rest => (c :: rest.take (batchSize - 1)) :: batches (rest.drop (batchSize - 1))
termination_by text.length
decreasing_by exact Nat.lt_succ_of_le (List.length_drop ▸ Nat.sub_le ..)

@[simp] theorem batches_nil : batches [] = [] := by
  simp only [batches]

theorem batches_cons (c : Char) (rest : Text) :
    batches (c :: rest) =
      (c :: rest.take (batchSize - 1)) :: batches (rest.drop (batchSize - 1)) := by
  rw [batches]

/-- Nothing is lost between the batches. -/
theorem flatten_batches (text : Text) : (batches text).flatten = text := by
  induction h : text.length using Nat.strongRecOn generalizing text with
  | ind n ih =>
    cases text with
    | nil => simp
    | cons c rest =>
      have hshort : (rest.drop (batchSize - 1)).length < n := by
        rw [← h, List.length_drop, List.length_cons]
        exact Nat.lt_succ_of_le (Nat.sub_le ..)
      rw [batches_cons, List.flatten_cons, ih _ hshort _ rfl, List.cons_append,
        List.take_append_drop]

/-- A decoder, the text nobody has taken yet, and whether somebody takes it now. -/
structure Delivery where
  decoder : Decoder
  retained : Text
  hasConsumer : Bool
  deriving DecidableEq, Repr

namespace Delivery

/-- A fresh decoder that nobody listens to. -/
def start (charset : Charset) : Delivery := ⟨.start charset, [], false⟩

/-- Registers a consumer, which is handed what was retained. -/
def attach (d : Delivery) : Delivery × List Text :=
  ({ d with retained := [], hasConsumer := true }, batches d.retained)

/-- Unregisters the consumer, and says whether there was one. -/
def detach (d : Delivery) : Delivery × Bool :=
  ({ d with hasConsumer := false }, d.hasConsumer)

/-- Decodes a chunk and hands on its text, or retains it.  Text read before an error is
dropped. -/
def write (d : Delivery) (bytes : List UInt8) : Delivery × List Text × Option DecodeError :=
  let result := d.decoder.decode bytes
  let d := { d with decoder := result.decoder }
  match result.error with
  | some error => (d, [], some error)
  | none =>
    if d.hasConsumer then (d, batches result.text, none)
    else ({ d with retained := d.retained ++ result.text }, [], none)

end Delivery

end PromptLine
