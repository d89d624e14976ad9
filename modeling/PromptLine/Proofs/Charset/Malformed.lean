import PromptLine.Charset.Delivery
import PromptLine.Proofs.Charset.RoundTrip

/-!
# Where malformed input is malformed

The offset that is reported with malformed input is the boundary between what can be read and what
cannot.  Up to the offset everything is accepted, and with the byte at the offset nothing is, so it
does not matter that some errors are blamed on the first byte of a unit and others on a later one.

The text that was read before the error ends at a unit, which may lie in front of the offset.  The
bytes between the two are those of the unit that went wrong, and of the high surrogate that waited
for it.  How many they can be is a matter of the charset (`Charset.lags`).
-/

namespace PromptLine

/-- How many bytes can lie between the end of what was read and the offset of malformed input. -/
def Charset.lags : Charset → List Nat
  | .utf8 => [0, 1, 2, 3]
  | .utf16be | .utf16le => [0, 2]
  | .latin1 | .ascii => [0]

namespace Decoder

/-! ## What is accepted -/

/-- A stream in which nothing malformed is found, though it may end in the middle of a unit. -/
def Accepts (charset : Charset) (bytes : List UInt8) : Prop :=
  ((start charset).decode bytes).error = none

instance (charset : Charset) (bytes : List UInt8) : Decidable (Accepts charset bytes) :=
  inferInstanceAs (Decidable (_ = none))

theorem accepts_iff {charset : Charset} {bytes : List UInt8} :
    Accepts charset bytes ↔ (read charset none bytes).malformed = false := by
  rw [Accepts, error_decode_eq_none_iff]
  exact and_iff_right rfl

/-! ## Behind the boundary of a unit -/

theorem malformed_frontUtf8 {surrogate : Option Nat} {first : UInt8} {rest : List UInt8}
    {offset : Nat} (h : frontUtf8 surrogate first rest = .malformed offset) :
    offset ≤ rest.length ∧ offset ≤ 3 := by
  unfold frontUtf8 at h
  split at h
  · cases h
    omega
  · next size hsize =>
    dsimp only at h
    split at h
    · next i hbad =>
      cases h
      obtain ⟨hi, -⟩ := List.findIdx?_eq_some_iff_getElem.mp hbad
      rw [List.length_take] at hi
      have hsize := utf8Length?_eq_some_iff.mp hsize
      omega
    · split at h
      · cases h
      · split at h
        · cases h
          omega
        · split at h <;> cases h
          omega

theorem malformed_frontUtf16 {unitOf : UInt8 → UInt8 → Nat} {surrogate : Option Nat}
    {first : UInt8} {rest : List UInt8} {offset : Nat}
    (h : frontUtf16 unitOf surrogate first rest = .malformed offset) : offset = 0 := by
  unfold frontUtf16 at h
  split at h
  · cases h
  · unfold frontUnit at h
    split at h
    · split at h <;> cases h
      rfl
    · split at h
      · cases h
      · split at h <;> cases h
        rfl

theorem malformed_frontByte {allowed : UInt8 → Bool} {surrogate : Option Nat} {first : UInt8}
    {offset : Nat} (h : frontByte allowed surrogate first = .malformed offset) : offset = 0 := by
  unfold frontByte at h
  split at h <;> cases h
  rfl

/-- The byte to blame is there, and lies behind the last boundary by one of the lags: those before
it in its unit are counted, and those of the surrogate that waited. -/
theorem lag_of_front {charset : Charset} {surrogate : Option Nat} {first : UInt8}
    {rest : List UInt8} {offset : Nat}
    (h : front charset surrogate first rest = .malformed offset) :
    offset ≤ rest.length ∧ (heldBytes charset surrogate).length + offset ∈ charset.lags := by
  cases charset with
  | utf8 =>
    obtain ⟨hthere, hshort⟩ := malformed_frontUtf8 h
    refine ⟨hthere, ?_⟩
    simp only [heldBytes, Charset.lags, List.length_nil, List.mem_cons, List.not_mem_nil, or_false]
    omega
  | utf16be | utf16le =>
    obtain rfl := malformed_frontUtf16 h
    refine ⟨Nat.zero_le _, ?_⟩
    cases surrogate <;> simp [heldBytes, Charset.lags, Charset.bigEndianBytes,
      Charset.littleEndianBytes]
  | latin1 | ascii =>
    rw [front] at h
    obtain rfl := malformed_frontByte h
    exact ⟨Nat.zero_le _, List.mem_singleton.mpr rfl⟩

/-- The byte to blame is one of those that were read. -/
theorem reached_lt (charset : Charset) (surrogate : Option Nat) (bytes : List UInt8)
    (h : (read charset surrogate bytes).malformed = true) :
    (read charset surrogate bytes).reached < bytes.length := by
  induction surrogate, bytes using read.induct charset with
  | case1 surrogate => rw [read] at h; cases h
  | case2 surrogate first rest hfront => rw [read_of_incomplete hfront] at h; cases h
  | case3 surrogate first rest offset hfront =>
    rw [read_of_malformed hfront, List.length_cons]
    exact Nat.lt_succ_of_le (lag_of_front hfront).1
  | case4 surrogate first rest further c? waiting hfront ih =>
    rw [read_of_unit hfront] at h ⊢
    have hrest := ih h
    rw [List.length_drop] at hrest
    rw [Reading.reached_behind, List.length_cons]
    omega

/-- **Up to the offset nothing is malformed.**  Otherwise reading would have stopped there. -/
theorem read_take_of_le_reached {charset : Charset} {surrogate : Option Nat} {bytes : List UInt8}
    {n : Nat} (hn : n ≤ (read charset surrogate bytes).reached) :
    (read charset surrogate (bytes.take n)).malformed = false := by
  rw [← Bool.not_eq_true]
  intro hbad
  have hstop := read_append_of_malformed charset surrogate (bytes.take n) (bytes.drop n) hbad
  have hreached := reached_lt charset surrogate (bytes.take n) hbad
  rw [List.take_append_drop] at hstop
  rw [← hstop, List.length_take] at hreached
  omega

/-- **What was read before an error is written by what stands before it.**  The waiting surrogate
that reading begins with stands for its bytes, so they count as bytes in front of the others. -/
theorem encode_text_of_malformed {charset : Charset} {surrogate : Option Nat} {bytes : List UInt8}
    (h : (read charset surrogate bytes).malformed = true)
    (hheld : ∀ high ∈ surrogate, isHighSurrogate high = true) :
    ∃ lag ∈ charset.lags,
      lag ≤ (heldBytes charset surrogate).length + (read charset surrogate bytes).reached ∧
      charset.encode (read charset surrogate bytes).text =
        (heldBytes charset surrogate ++ bytes).take
          ((heldBytes charset surrogate).length + (read charset surrogate bytes).reached - lag) := by
  induction surrogate, bytes using read.induct charset with
  | case1 surrogate => rw [read] at h; cases h
  | case2 surrogate first rest hfront => rw [read_of_incomplete hfront] at h; cases h
  | case3 surrogate first rest offset hfront =>
    rw [read_of_malformed hfront]
    refine ⟨_, (lag_of_front hfront).2, Nat.le_refl _, ?_⟩
    rw [Nat.sub_self, List.take_zero, Charset.encode_nil]
  | case4 surrogate first rest further c? waiting hfront ih =>
    obtain ⟨hunit, hwaiting⟩ := conserved_front hfront hheld
    have hfurther := further_le_of_front hfront
    rw [read_of_unit hfront] at h ⊢
    obtain ⟨lag, hlag, hle, htext⟩ := ih h hwaiting
    -- the unit and the surrogate behind it are the same bytes as the surrogate before and the unit
    have hbytes : heldBytes charset surrogate ++ first :: rest =
        charset.encode c?.toList ++ (heldBytes charset waiting ++ rest.drop further) := by
      rw [← List.append_assoc, hunit, List.append_assoc, List.cons_append, List.take_append_drop]
    have hlength := congrArg List.length hunit
    rw [List.length_append, List.length_append, List.length_cons, List.length_take,
      Nat.min_eq_left hfurther] at hlength
    rw [Reading.text_behind, Reading.reached_behind]
    refine ⟨lag, hlag, by omega, ?_⟩
    rw [Charset.encode_append, htext, hbytes, ← List.take_length_add_append]
    congr 1
    omega

/-! ## What waits -/

/-- A surrogate waits in the charsets of 16-bit units only. -/
def Waits (charset : Charset) (surrogate : Option Nat) : Prop :=
  surrogate ≠ none → charset = .utf16be ∨ charset = .utf16le

theorem waits_of_front {charset : Charset} {surrogate waiting : Option Nat} {first : UInt8}
    {rest : List UInt8} {further : Nat} {c? : Option Char}
    (h : front charset surrogate first rest = .unit further c? waiting)
    (hwaits : Waits charset surrogate) : Waits charset waiting := by
  cases charset with
  | utf8 =>
    obtain ⟨-, -, rfl, -⟩ := isSequence_of_frontUtf8 h
    exact hwaits
  | utf16be => exact fun _ => Or.inl rfl
  | utf16le => exact fun _ => Or.inr rfl
  | latin1 | ascii =>
    rw [front, frontByte] at h
    split at h <;> cases h
    exact hwaits

theorem waits_of_read {charset : Charset} {surrogate : Option Nat} (bytes : List UInt8)
    (hwaits : Waits charset surrogate) : Waits charset (read charset surrogate bytes).surrogate := by
  induction surrogate, bytes using read.induct charset with
  | case1 surrogate => rwa [read]
  | case2 surrogate first rest hfront => rwa [read_of_incomplete hfront]
  | case3 surrogate first rest offset hfront => rwa [read_of_malformed hfront]
  | case4 surrogate first rest further c? waiting hfront ih =>
    rw [read_of_unit hfront]
    exact ih (waits_of_front hfront hwaits)

/-- A sequence that is not complete has fewer bytes than its first byte asks for, and all of them
continue it. -/
theorem frontUtf8_eq_incomplete_iff {surrogate : Option Nat} {first : UInt8} {rest : List UInt8} :
    frontUtf8 surrogate first rest = .incomplete ↔
      ∃ size, utf8Length? first = some size ∧ rest.length + 1 < size ∧
        ∀ byte ∈ rest, isContinuation byte = true := by
  unfold frontUtf8
  constructor
  · intro h
    split at h
    · cases h
    · next size hsize =>
      dsimp only at h
      split at h
      · cases h
      · next hgood =>
        split at h
        · next hshort =>
          rw [List.length_take] at hshort
          rw [List.take_of_length_le (by omega), List.findIdx?_eq_none_iff] at hgood
          refine ⟨size, hsize, by omega, fun byte hbyte => ?_⟩
          simpa using hgood byte hbyte
        · split at h
          · cases h
          · split at h <;> cases h
  · rintro ⟨size, hsize, hshort, hcontinues⟩
    have hgood : (rest.findIdx? fun byte => !isContinuation byte) = none := by
      rw [List.findIdx?_eq_none_iff]
      intro byte hbyte
      rw [hcontinues byte hbyte]
      rfl
    rw [hsize]
    dsimp only
    rw [List.take_of_length_le (by omega), hgood]
    exact if_pos (by omega)

theorem incomplete_frontUtf16 {unitOf : UInt8 → UInt8 → Nat} {surrogate : Option Nat}
    {first : UInt8} {rest : List UInt8}
    (h : frontUtf16 unitOf surrogate first rest = .incomplete) : rest = [] := by
  cases rest with
  | nil => rfl
  | cons second rest =>
    rw [frontUtf16] at h
    unfold frontUnit at h
    split at h <;> split_ifs at h

/-- An incomplete unit, with the surrogate before it, is at most three bytes. -/
theorem pending_le_of_incomplete {charset : Charset} {surrogate : Option Nat} {first : UInt8}
    {rest : List UInt8} (h : front charset surrogate first rest = .incomplete)
    (hwaits : Waits charset surrogate) :
    rest.length + 1 + (if surrogate.isSome then 2 else 0) ≤ 3 := by
  cases charset with
  | utf8 =>
    obtain ⟨size, hsize, hshort, -⟩ := frontUtf8_eq_incomplete_iff.mp h
    have hnone : surrogate = none := by
      by_contra hsome
      cases hwaits hsome <;> contradiction
    have hsize := utf8Length?_eq_some_iff.mp hsize
    rw [hnone]
    simp only [Option.isSome_none, Bool.false_eq_true, if_false]
    omega
  | utf16be | utf16le =>
    obtain rfl := incomplete_frontUtf16 h
    cases surrogate <;> simp
  | latin1 | ascii =>
    rw [front, frontByte] at h
    split at h <;> cases h

/-- What is read to nothing is the beginning of a unit. -/
theorem incomplete_of_read {charset : Charset} {surrogate : Option Nat} {first : UInt8}
    {rest : List UInt8} (h : read charset surrogate (first :: rest) = ⟨[], surrogate, 0, false⟩) :
    front charset surrogate first rest = .incomplete := by
  cases hfront : front charset surrogate first rest with
  | incomplete => rfl
  | malformed offset =>
    rw [read_of_malformed hfront] at h
    cases h
  | unit further c? waiting =>
    rw [read_of_unit hfront] at h
    cases congrArg Reading.reached h

/-- A decoder at rest has at most three bytes pending. -/
theorem AtRest.pendingBytes_le {d : Decoder} (hd : d.AtRest)
    (hwaits : Waits d.charset d.surrogate) : d.pendingBytes ≤ 3 := by
  obtain ⟨-, hread⟩ := hd
  rw [pendingBytes]
  cases hstaged : d.staged with
  | nil => split <;> simp
  | cons first rest =>
    rw [hstaged] at hread
    exact pending_le_of_incomplete (incomplete_of_read hread) hwaits

/-! ## The stream up to the error -/

theorem decode_of_poisoned {d : Decoder} (h : d.poisoned = true) (bytes : List UInt8) :
    d.decode bytes = ⟨d, [], some .poisoned⟩ := by
  rw [decode, if_pos h]

/-- A poisoned decoder refuses what is written to it, and hands nothing on. -/
theorem write_of_poisoned {d : Delivery} (h : d.decoder.poisoned = true) (bytes : List UInt8) :
    d.write bytes = (d, [], some .poisoned) := by
  rw [Delivery.write, decode_of_poisoned h]

theorem pendingBytes_poison (d : Decoder) : d.poison.pendingBytes = 0 := rfl

/-- The offset parts what can be read of a stream from what cannot, and the text is what was read
before it. -/
structure Locates (charset : Charset) (bytes : List UInt8) (text : Text) (offset : Nat) : Prop where
  there : offset < bytes.length
  accepts : ∀ first, first <+: bytes → first.length ≤ offset → Accepts charset first
  refuses : ∀ more, ¬Accepts charset (bytes ++ more)
  kept : ∃ lag ∈ charset.lags, lag ≤ offset ∧ charset.encode text = bytes.take (offset - lag)

theorem locates_of_malformed {charset : Charset} {bytes : List UInt8}
    (h : (read charset none bytes).malformed = true) :
    Locates charset bytes (read charset none bytes).text (read charset none bytes).reached where
  there := reached_lt charset none bytes h
  accepts first hfirst hshort := by
    rw [accepts_iff, List.prefix_iff_eq_take.mp hfirst]
    exact read_take_of_le_reached hshort
  refuses more haccepts := by
    rw [accepts_iff, read_append_of_malformed charset none bytes more h, h] at haccepts
    cases haccepts
  kept := by
    have hkept := encode_text_of_malformed h fun _ hnone => nomatch hnone
    rwa [heldBytes_none, List.length_nil, Nat.zero_add] at hkept

/-- **Malformed input is located, and what came before it is kept.**  However a stream is cut, at
most three bytes are pending as long as there is no error.  An error leaves nothing pending and a
decoder that refuses everything.  Its offset is that of a byte of the stream: everything that ends
in front of this byte is accepted, and nothing that begins with the stream.  The text that was read
before it is written by the bytes up to the offset, without those of the unit that went wrong. -/
theorem decodeChunks_located (charset : Charset) (chunks : List (List UInt8)) :
    let result := (start charset).decodeChunks chunks
    (result.error = none → result.decoder.pendingBytes ≤ 3) ∧
      (result.error ≠ none →
        result.decoder.pendingBytes = 0 ∧
        (∀ more, result.decoder.decode more = ⟨result.decoder, [], some .poisoned⟩) ∧
        (∀ d : Delivery, d.decoder = result.decoder →
          ∀ more, d.write more = (d, [], some .poisoned)) ∧
        ∃ offset, result.error = some (.malformed charset offset) ∧
          Locates charset chunks.flatten result.text offset) := by
  intro result
  obtain ⟨htext, herror, halike, heq⟩ := decodeChunks_of_atRest (atRest_start charset) chunks
  cases hread : (read charset none chunks.flatten).malformed with
  | false =>
    have hwhole : ((start charset).decode chunks.flatten).error = none := accepts_iff.mpr hread
    refine ⟨fun _ => ?_, fun h => absurd (herror.trans hwhole) h⟩
    have hrest := atRest_decode hwhole
    rw [heq hwhole]
    refine hrest.pendingBytes_le ?_
    rw [decode_of_read (d := start charset) rfl hread]
    exact waits_of_read chunks.flatten fun h => absurd rfl h
  | true =>
    have hwhole := decode_of_malformed (d := start charset) rfl hread
    have hoffset :
        result.error = some (.malformed charset (read charset none chunks.flatten).reached) := by
      rw [herror, hwhole, ← Nat.zero_add (read charset none chunks.flatten).reached]
      rfl
    have hpoisoned : result.decoder.poisoned = true := by
      rw [halike.poisoned_eq, hwhole]
      rfl
    refine ⟨fun h => absurd (hoffset.symm.trans h) (Option.some_ne_none _), fun _ =>
      ⟨?_, decode_of_poisoned hpoisoned, ?_, _, hoffset, ?_⟩⟩
    · rw [halike.pendingBytes_eq, hwhole, pendingBytes_poison]
    · intro d hd
      exact write_of_poisoned (hd ▸ hpoisoned)
    · rw [htext, hwhole]
      exact locates_of_malformed hread

/-- A high surrogate waits, and the next unit is no low one. -/
theorem located_unpairedSurrogate :
    let result := (start .utf16be).decodeChunks [[0, 0x61, 0xD8, 0x3D, 0], [0x41]]
    result.error ≠ none ∧ result.decoder.pendingBytes = 0 :=
  have herror : ((start .utf16be).decodeChunks [[0, 0x61, 0xD8, 0x3D, 0], [0x41]]).error ≠ none := by
    decide +kernel
  ⟨herror, ((decodeChunks_located .utf16be [[0, 0x61, 0xD8, 0x3D, 0], [0x41]]).2 herror).1⟩

end Decoder

end PromptLine
