import PromptLine.Charset.Delivery

/-!
# Consumers that come and go

Decoded text leaves a decoder in two ways: it is handed to the consumer that is registered, or it is
retained until there is one.  Each way cuts text into batches on its own, so the order of the whole
is kept only because the two never compete: while there is a consumer nothing is retained, and so
whatever a consumer is handed when it registers comes before all that is written later.

This is the invariant of a run (`Settled`).  Each operation then hands over and leaves behind just
what it found and what it decoded (`flatten_perform`), and a run adds this up.
-/

namespace PromptLine

/-- A batch holds something, and no more than it may. -/
theorem length_of_mem_batches {text batch : Text} (h : batch ∈ batches text) :
    0 < batch.length ∧ batch.length ≤ batchSize := by
  induction text using batches.induct with
  | case1 =>
    rw [batches_nil] at h
    cases h
  | case2 c rest ih =>
    rw [batches_cons] at h
    rcases List.mem_cons.mp h with rfl | hlater
    · have htake : (rest.take (batchSize - 1)).length ≤ batchSize - 1 := List.length_take_le _ _
      exact ⟨Nat.succ_pos _, Nat.succ_le_succ htake⟩
    · exact ih hlater

namespace Decoder

/-- The text of those chunks that are decoded without an error. -/
def accepted (d : Decoder) : List (List UInt8) → Text
  | [] => []
  | chunk :: rest =>
    let result := d.decode chunk
    (if result.error = none then result.text else []) ++ result.decoder.accepted rest

end Decoder

namespace Delivery

/-! ## Runs -/

/-- What can be done to a delivery.  Consumers are told apart by number. -/
inductive Operation
  | write (bytes : List UInt8)
  | attach (consumer : Nat)
  | detach
  deriving DecidableEq, Repr

namespace Operation

/-- The bytes that an operation brings. -/
def chunk? : Operation → Option (List UInt8)
  | write bytes => some bytes
  | _ => none

/-- The consumer that is registered after an operation. -/
def registered (current : Option Nat) : Operation → Option Nat
  | write _ => current
  | attach consumer => some consumer
  | detach => none

end Operation

/-- Carries an operation out, and answers with the batches it hands over. -/
def perform (d : Delivery) : Operation → Delivery × List Text
  | .write bytes => ((d.write bytes).1, (d.write bytes).2.1)
  | .attach _ => d.attach
  | .detach => (d.detach.1, [])

/-- The delivery after a run. -/
def after (d : Delivery) (run : List Operation) : Delivery :=
  run.foldl (fun d operation => (d.perform operation).1) d

/-- The batches of a run in the order of time, each with the consumer that is registered when it is
handed over. -/
def handovers (d : Delivery) (current : Option Nat) : List Operation → List (Option Nat × Text)
  | [] => []
  | operation :: rest =>
    let current := operation.registered current
    (d.perform operation).2.map (current, ·) ++ (d.perform operation).1.handovers current rest

/-! ## One operation -/

/-- A delivery whose consumer is known, and which retains nothing while it has one. -/
structure Settled (d : Delivery) (current : Option Nat) : Prop where
  known : d.hasConsumer = current.isSome
  retained : d.hasConsumer = true → d.retained = []

variable {d : Delivery} {current : Option Nat}

theorem settled_start (charset : Charset) : (start charset).Settled none := ⟨rfl, fun _ => rfl⟩

theorem write_of_error {bytes : List UInt8} {error : DecodeError}
    (h : (d.decoder.decode bytes).error = some error) :
    d.write bytes = ({ d with decoder := (d.decoder.decode bytes).decoder }, [], some error) := by
  rw [write, h]

theorem write_of_consumer {bytes : List UInt8} (h : (d.decoder.decode bytes).error = none)
    (hconsumer : d.hasConsumer = true) :
    d.write bytes = ({ d with decoder := (d.decoder.decode bytes).decoder },
      batches (d.decoder.decode bytes).text, none) := by
  rw [write, h]
  exact if_pos hconsumer

theorem write_of_nobody {bytes : List UInt8} (h : (d.decoder.decode bytes).error = none)
    (hnobody : d.hasConsumer = false) :
    d.write bytes = ({ d with
      decoder := (d.decoder.decode bytes).decoder
      retained := d.retained ++ (d.decoder.decode bytes).text }, [], none) := by
  rw [write, h]
  exact if_neg (Bool.eq_false_iff.mp hnobody)

/-- A consumer that has come is handed what was retained, so nothing is retained any more; and while
it stays, nothing is. -/
theorem Settled.perform (h : d.Settled current) (operation : Operation) :
    (d.perform operation).1.Settled (operation.registered current) := by
  cases operation with
  | attach consumer => exact ⟨rfl, fun _ => rfl⟩
  | detach => exact ⟨rfl, fun hnobody => absurd hnobody Bool.false_ne_true⟩
  | write bytes =>
    rw [Delivery.perform]
    cases herror : (d.decoder.decode bytes).error with
    | some error =>
      rw [write_of_error herror]
      exact ⟨h.known, h.retained⟩
    | none =>
      cases hconsumer : d.hasConsumer with
      | true =>
        rw [write_of_consumer herror hconsumer]
        exact ⟨h.known, h.retained⟩
      | false =>
        rw [write_of_nobody herror hconsumer]
        exact ⟨h.known, fun hsome => absurd (hconsumer.symm.trans hsome) Bool.false_ne_true⟩

/-- **An operation loses nothing.**  What it hands over, and then what is retained, is what was
retained before and what it has decoded. -/
theorem Settled.flatten_perform (h : d.Settled current) (operation : Operation) :
    (d.perform operation).2.flatten ++ (d.perform operation).1.retained =
      d.retained ++ d.decoder.accepted operation.chunk?.toList := by
  cases operation with
  | attach consumer =>
    change (batches d.retained).flatten ++ [] = d.retained ++ []
    rw [flatten_batches]
  | detach => exact (List.append_nil d.retained).symm
  | write bytes =>
    have haccepted : d.decoder.accepted (Operation.write bytes).chunk?.toList =
        if (d.decoder.decode bytes).error = none then (d.decoder.decode bytes).text else [] :=
      List.append_nil _
    rw [Delivery.perform, haccepted]
    cases herror : (d.decoder.decode bytes).error with
    | some error =>
      rw [write_of_error herror, if_neg (Option.some_ne_none error), List.append_nil]
      rfl
    | none =>
      rw [if_pos rfl]
      cases hconsumer : d.hasConsumer with
      | true =>
        rw [write_of_consumer herror hconsumer]
        dsimp only
        rw [flatten_batches, h.retained hconsumer, List.append_nil, List.nil_append]
      | false =>
        rw [write_of_nobody herror hconsumer]
        rfl

/-- A batch is handed to somebody, and has the size it should have. -/
theorem Settled.batch_of_perform (h : d.Settled current) {operation : Operation} {batch : Text}
    (hbatch : batch ∈ (d.perform operation).2) :
    (operation.registered current).isSome = true ∧ 0 < batch.length ∧
      batch.length ≤ batchSize := by
  cases operation with
  | attach consumer => exact ⟨rfl, length_of_mem_batches hbatch⟩
  | detach => cases hbatch
  | write bytes =>
    rw [Delivery.perform] at hbatch
    cases herror : (d.decoder.decode bytes).error with
    | some error =>
      rw [write_of_error herror] at hbatch
      cases hbatch
    | none =>
      cases hconsumer : d.hasConsumer with
      | true =>
        rw [write_of_consumer herror hconsumer] at hbatch
        exact ⟨h.known.symm.trans hconsumer, length_of_mem_batches hbatch⟩
      | false =>
        rw [write_of_nobody herror hconsumer] at hbatch
        cases hbatch

/-! ## Whole runs -/

theorem accepted_chunk_append (d : Delivery) (operation : Operation) (rest : List (List UInt8)) :
    d.decoder.accepted (operation.chunk?.toList ++ rest) =
      d.decoder.accepted operation.chunk?.toList ++
        (d.perform operation).1.decoder.accepted rest := by
  cases operation with
  | attach consumer => rfl
  | detach => rfl
  | write bytes =>
    have hdecoder : (d.write bytes).1.decoder = (d.decoder.decode bytes).decoder := by
      rw [write]
      dsimp only
      split
      · rfl
      · split <;> rfl
    change _ ++ (d.decoder.decode bytes).decoder.accepted rest =
      (_ ++ []) ++ (d.write bytes).1.decoder.accepted rest
    rw [List.append_nil, hdecoder]

theorem Settled.after (h : d.Settled current) (run : List Operation) :
    (d.after run).Settled (run.foldl Operation.registered current) := by
  induction run generalizing d current with
  | nil => exact h
  | cons operation rest ih => exact ih (h.perform operation)

/-- **A run loses nothing**, and keeps the order of time. -/
theorem Settled.handovers_append_retained (h : d.Settled current) (run : List Operation) :
    (d.handovers current run).flatMap (·.2) ++ (d.after run).retained =
      d.retained ++ d.decoder.accepted (run.filterMap Operation.chunk?) := by
  induction run generalizing d current with
  | nil => exact (List.append_nil d.retained).symm
  | cons operation rest ih =>
    have hfirst : ((d.perform operation).2.map (operation.registered current, ·)).flatMap (·.2) =
        (d.perform operation).2.flatten := by
      rw [List.flatMap_map, List.flatMap_id']
    have hchunks : (operation :: rest).filterMap Operation.chunk? =
        operation.chunk?.toList ++ rest.filterMap Operation.chunk? := by
      cases operation <;> rfl
    have hlast : d.after (operation :: rest) = (d.perform operation).1.after rest := rfl
    rw [handovers, List.flatMap_append, hfirst, hlast, List.append_assoc, ih (h.perform operation),
      ← List.append_assoc, h.flatten_perform, List.append_assoc, hchunks, accepted_chunk_append]

theorem Settled.batch_of_handovers (h : d.Settled current) (run : List Operation)
    {handover : Option Nat × Text} (hmem : handover ∈ d.handovers current run) :
    handover.1.isSome = true ∧ 0 < handover.2.length ∧ handover.2.length ≤ batchSize := by
  induction run generalizing d current with
  | nil => cases hmem
  | cons operation rest ih =>
    rw [handovers] at hmem
    rcases List.mem_append.mp hmem with hnow | hlater
    · obtain ⟨batch, hbatch, rfl⟩ := List.mem_map.mp hnow
      exact h.batch_of_perform hbatch
    · exact ih (h.perform operation) hlater

/-- **No text is lost between consumers.**  However bytes are written and consumers are registered
and taken away, all that was handed over in the order of time, and then what is retained, is the
text of the writes that succeeded.  Every batch is handed to a consumer that is registered, holds
something, and holds 256 code points at most.  Text is retained only while there is no consumer. -/
theorem text_of_handovers (charset : Charset) (run : List Operation) :
    let handed := (start charset).handovers none run
    let last := (start charset).after run
    handed.flatMap (·.2) ++ last.retained =
        (Decoder.start charset).accepted (run.filterMap Operation.chunk?) ∧
      (∀ handover ∈ handed,
        handover.1.isSome = true ∧ 1 ≤ handover.2.length ∧ handover.2.length ≤ 256) ∧
      (last.retained ≠ [] → run.foldl Operation.registered none = none) := by
  intro handed last
  have hstart := settled_start charset
  have hlast := hstart.after run
  refine ⟨hstart.handovers_append_retained run, fun handover hmem => ?_, fun hretained => ?_⟩
  · exact hstart.batch_of_handovers run hmem
  · cases hconsumer : run.foldl Operation.registered none with
    | none => rfl
    | some consumer =>
      have hknown : last.hasConsumer = true := hlast.known.trans (by rw [hconsumer]; rfl)
      exact absurd (hlast.retained hknown) hretained

/-- A consumer comes in the middle of a character, is replaced, and goes; then the stream breaks. -/
example :
    let run : List Operation :=
      [.write [0x61, 0xC3], .attach 1, .write [0xA9], .attach 2, .write [0x62], .detach,
        .write [0x63], .write [0xFF], .write [0x64], .attach 3]
    (start .utf8).handovers none run =
      [(some 1, ['a']), (some 1, ['é']), (some 2, ['b']), (some 3, ['c'])] := by
  decide +kernel

end Delivery

end PromptLine
