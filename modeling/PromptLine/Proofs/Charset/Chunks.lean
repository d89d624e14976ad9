import PromptLine.Charset.Decoder

/-!
# Where a byte stream is cut does not matter

A chunk is read behind the bytes that were staged, so a unit may be looked at several times: once
for each chunk that brings some of its bytes.  Two facts make this harmless.  What stands at the
front of the bytes keeps standing there when more bytes arrive (`front_append`), and what is staged
is read to nothing, so that looking at it early leaves no trace (`AtRest`).

Reading `xs ++ ys` is therefore reading `xs`, and then `ys` behind what `xs` left.  That the two
halves report a malformed byte at one offset needs no argument of its own: the offset is where the
first half stopped plus where the second stops from there.
-/

namespace PromptLine

namespace Decoder

/-! ## The front of the bytes -/

/-- A sequence that is complete, or has a wrong byte, is the same sequence in front of more. -/
theorem frontUtf8_append {surrogate : Option Nat} {first : UInt8} {rest : List UInt8}
    (h : frontUtf8 surrogate first rest ≠ .incomplete) (more : List UInt8) :
    frontUtf8 surrogate first (rest ++ more) = frontUtf8 surrogate first rest := by
  unfold frontUtf8 at h ⊢
  cases hsize : utf8Length? first with
  | none => rfl
  | some size =>
    rw [hsize] at h
    dsimp only at h ⊢
    rw [List.take_append, List.findIdx?_append]
    cases hbad : (rest.take (size - 1)).findIdx? fun byte => !isContinuation byte with
    | some i => rfl
    | none =>
      rw [hbad] at h
      dsimp only at h
      -- only a sequence with all of its bytes is left, so none of `more` belongs to it
      have hlong : ¬(rest.take (size - 1)).length < size - 1 := fun hshort => h (if_pos hshort)
      have hnone : size - 1 - rest.length = 0 := by
        rw [List.length_take] at hlong
        omega
      rw [hnone, List.take_zero, List.append_nil]
      rfl

theorem frontUtf16_append {unitOf : UInt8 → UInt8 → Nat} {surrogate : Option Nat} {first : UInt8}
    {rest : List UInt8} (h : frontUtf16 unitOf surrogate first rest ≠ .incomplete)
    (more : List UInt8) :
    frontUtf16 unitOf surrogate first (rest ++ more) = frontUtf16 unitOf surrogate first rest := by
  cases rest with
  | nil => exact absurd rfl h
  | cons second rest => rfl

/-- **What stands at the front stays there.**  Bytes that arrive later can complete a unit, but
change nothing about one that is complete or malformed. -/
theorem front_append {charset : Charset} {surrogate : Option Nat} {first : UInt8}
    {rest : List UInt8} {f : Front} (h : front charset surrogate first rest = f)
    (hf : f ≠ .incomplete) (more : List UInt8) :
    front charset surrogate first (rest ++ more) = f := by
  subst h
  cases charset with
  | utf8 => exact frontUtf8_append hf more
  | utf16be => exact frontUtf16_append hf more
  | utf16le => exact frontUtf16_append hf more
  | latin1 => rfl
  | ascii => rfl

theorem further_le_of_frontUtf8 {surrogate waiting : Option Nat} {first : UInt8}
    {rest : List UInt8} {further : Nat} {c? : Option Char}
    (h : frontUtf8 surrogate first rest = .unit further c? waiting) : further ≤ rest.length := by
  unfold frontUtf8 at h
  split at h
  · cases h
  · next size _ =>
    dsimp only at h
    split at h
    · cases h
    · split at h
      · cases h
      · next hlong =>
        rw [List.length_take] at hlong
        split at h
        · cases h
        · split at h
          · cases h
          · cases h
            omega

theorem further_le_of_frontUnit {surrogate waiting : Option Nat} {unit further : Nat}
    {c? : Option Char} (h : frontUnit surrogate unit = .unit further c? waiting) :
    further = 1 := by
  unfold frontUnit at h
  split at h
  · split at h <;> cases h
    rfl
  · split at h
    · cases h
      rfl
    · split at h <;> cases h
      rfl

theorem further_le_of_frontUtf16 {unitOf : UInt8 → UInt8 → Nat} {surrogate waiting : Option Nat}
    {first : UInt8} {rest : List UInt8} {further : Nat} {c? : Option Char}
    (h : frontUtf16 unitOf surrogate first rest = .unit further c? waiting) :
    further ≤ rest.length := by
  cases rest with
  | nil => cases h
  | cons second rest =>
    rw [further_le_of_frontUnit h, List.length_cons]
    omega

theorem further_le_of_frontByte {allowed : UInt8 → Bool} {surrogate waiting : Option Nat}
    {first : UInt8} {further : Nat} {c? : Option Char}
    (h : frontByte allowed surrogate first = .unit further c? waiting) : further = 0 := by
  unfold frontByte at h
  split at h <;> cases h
  rfl

/-- A unit consists of bytes that are there. -/
theorem further_le_of_front {charset : Charset} {surrogate waiting : Option Nat} {first : UInt8}
    {rest : List UInt8} {further : Nat} {c? : Option Char}
    (h : front charset surrogate first rest = .unit further c? waiting) :
    further ≤ rest.length := by
  cases charset with
  | utf8 => exact further_le_of_frontUtf8 h
  | utf16be => exact further_le_of_frontUtf16 h
  | utf16le => exact further_le_of_frontUtf16 h
  | latin1 =>
    rw [front] at h
    exact further_le_of_frontByte h ▸ Nat.zero_le _
  | ascii =>
    rw [front] at h
    exact further_le_of_frontByte h ▸ Nat.zero_le _

/-! ## Reading -/

theorem read_of_incomplete {charset : Charset} {surrogate : Option Nat} {first : UInt8}
    {rest : List UInt8} (h : front charset surrogate first rest = .incomplete) :
    read charset surrogate (first :: rest) = ⟨[], surrogate, 0, false⟩ := by
  rw [read, h]

theorem read_of_malformed {charset : Charset} {surrogate : Option Nat} {first : UInt8}
    {rest : List UInt8} {offset : Nat}
    (h : front charset surrogate first rest = .malformed offset) :
    read charset surrogate (first :: rest) = ⟨[], surrogate, offset, true⟩ := by
  rw [read, h]

theorem read_of_unit {charset : Charset} {surrogate waiting : Option Nat} {first : UInt8}
    {rest : List UInt8} {further : Nat} {c? : Option Char}
    (h : front charset surrogate first rest = .unit further c? waiting) :
    read charset surrogate (first :: rest) =
      (read charset waiting (rest.drop further)).behind (further + 1) c? := by
  rw [read, h]

/-- Without an error, what was reached are bytes that are there. -/
theorem reached_le (charset : Charset) (surrogate : Option Nat) (bytes : List UInt8)
    (h : (read charset surrogate bytes).malformed = false) :
    (read charset surrogate bytes).reached ≤ bytes.length := by
  induction surrogate, bytes using read.induct charset with
  | case1 surrogate => rw [read]; exact Nat.zero_le _
  | case2 surrogate first rest hfront => rw [read_of_incomplete hfront]; exact Nat.zero_le _
  | case3 surrogate first rest offset hfront =>
    rw [read_of_malformed hfront] at h
    cases h
  | case4 surrogate first rest further c? waiting hfront ih =>
    rw [read_of_unit hfront] at h ⊢
    have hrest := ih h
    have hfurther := further_le_of_front hfront
    rw [List.length_drop] at hrest
    rw [Reading.reached_behind, List.length_cons]
    omega

/-- What a reading leaves does not hang on the unit in front of it. -/
theorem drop_reached_behind (r : Reading) (first : UInt8) (rest : List UInt8) (further : Nat)
    (c? : Option Char) :
    (first :: rest).drop (r.behind (further + 1) c?).reached =
      (rest.drop further).drop r.reached := by
  rw [Reading.reached_behind, ← Nat.add_assoc, List.drop_succ_cons, List.drop_drop, Nat.add_comm]

/-- What is left when reading stops is read to nothing. -/
theorem read_left (charset : Charset) (surrogate : Option Nat) (bytes : List UInt8)
    (h : (read charset surrogate bytes).malformed = false) :
    read charset (read charset surrogate bytes).surrogate
        (bytes.drop (read charset surrogate bytes).reached) =
      ⟨[], (read charset surrogate bytes).surrogate, 0, false⟩ := by
  induction surrogate, bytes using read.induct charset with
  | case1 surrogate => rw [read, List.drop_nil, read]
  | case2 surrogate first rest hfront => rw [read_of_incomplete hfront, List.drop_zero,
      read_of_incomplete hfront]
  | case3 surrogate first rest offset hfront =>
    rw [read_of_malformed hfront] at h
    cases h
  | case4 surrogate first rest further c? waiting hfront ih =>
    rw [read_of_unit hfront] at h ⊢
    rw [drop_reached_behind]
    exact ih h

/-- **Reading goes no further than the first malformed unit**, whatever comes after it. -/
theorem read_append_of_malformed (charset : Charset) (surrogate : Option Nat)
    (xs ys : List UInt8) (h : (read charset surrogate xs).malformed = true) :
    read charset surrogate (xs ++ ys) = read charset surrogate xs := by
  induction surrogate, xs using read.induct charset with
  | case1 surrogate => rw [read] at h; cases h
  | case2 surrogate first rest hfront => rw [read_of_incomplete hfront] at h; cases h
  | case3 surrogate first rest offset hfront =>
    have hstays := front_append hfront Front.noConfusion ys
    rw [read_of_malformed hfront, List.cons_append, read_of_malformed hstays]
  | case4 surrogate first rest further c? waiting hfront ih =>
    have hstays := front_append hfront Front.noConfusion ys
    rw [read_of_unit hfront] at h ⊢
    rw [List.cons_append, read_of_unit hstays,
      List.drop_append_of_le_length (further_le_of_front hfront), ih h]

/-- A reading and what was read from where it had stopped. -/
def Reading.followedBy (before after : Reading) : Reading :=
  ⟨before.text ++ after.text, after.surrogate, before.reached + after.reached, after.malformed⟩

/-- **Reading on.**  What reading `xs` has left is read again in front of `ys`. -/
theorem read_append {charset : Charset} {surrogate : Option Nat} {xs : List UInt8}
    (h : (read charset surrogate xs).malformed = false) (ys : List UInt8) :
    read charset surrogate (xs ++ ys) =
      (read charset surrogate xs).followedBy
        (read charset (read charset surrogate xs).surrogate
          (xs.drop (read charset surrogate xs).reached ++ ys)) := by
  induction surrogate, xs using read.induct charset with
  | case1 surrogate => simp [read, Reading.followedBy]
  | case2 surrogate first rest hfront => simp [read_of_incomplete hfront, Reading.followedBy]
  | case3 surrogate first rest offset hfront =>
    rw [read_of_malformed hfront] at h
    cases h
  | case4 surrogate first rest further c? waiting hfront ih =>
    have hstays := front_append hfront Front.noConfusion ys
    rw [read_of_unit hfront] at h ⊢
    rw [List.cons_append, read_of_unit hstays, drop_reached_behind,
      List.drop_append_of_le_length (further_le_of_front hfront), ih h]
    simp [Reading.behind, Reading.followedBy, Nat.add_right_comm]

/-! ## Decoding -/

/-- What is read when a chunk arrives. -/
def reading (d : Decoder) (bytes : List UInt8) : Reading :=
  read d.charset d.surrogate (d.staged ++ bytes)

/-- A decoder that works, and has staged nothing that could be read. -/
def AtRest (d : Decoder) : Prop :=
  d.poisoned = false ∧ read d.charset d.surrogate d.staged = ⟨[], d.surrogate, 0, false⟩

theorem atRest_start (charset : Charset) : (start charset).AtRest :=
  ⟨rfl, by rw [start, read]⟩

theorem decode_of_malformed {d : Decoder} {bytes : List UInt8} (hd : d.poisoned = false)
    (h : (d.reading bytes).malformed = true) :
    d.decode bytes = ⟨d.poison, (d.reading bytes).text,
      some (.malformed d.charset (d.consumed + (d.reading bytes).reached))⟩ := by
  rw [reading] at h ⊢
  simp [decode, hd, h]

theorem decode_of_read {d : Decoder} {bytes : List UInt8} (hd : d.poisoned = false)
    (h : (d.reading bytes).malformed = false) :
    d.decode bytes =
      ⟨d.advance (d.staged ++ bytes) (d.reading bytes), (d.reading bytes).text, none⟩ := by
  rw [reading] at h ⊢
  simp [decode, hd, h]

/-- A chunk is decoded without an error exactly if its decoder works and reading finds nothing
malformed. -/
theorem error_decode_eq_none_iff (d : Decoder) (bytes : List UInt8) :
    (d.decode bytes).error = none ↔
      d.poisoned = false ∧ (d.reading bytes).malformed = false := by
  cases hd : d.poisoned with
  | true => simp [decode, hd]
  | false =>
    cases hread : (d.reading bytes).malformed with
    | true => simp [decode_of_malformed hd hread]
    | false => simp [decode_of_read hd hread]

/-- Decoding leaves a decoder at rest, unless it stops with an error. -/
theorem atRest_decode {d : Decoder} {bytes : List UInt8} (h : (d.decode bytes).error = none) :
    (d.decode bytes).decoder.AtRest := by
  obtain ⟨hd, hread⟩ := (error_decode_eq_none_iff d bytes).mp h
  rw [decode_of_read hd hread]
  exact ⟨hd, read_left d.charset d.surrogate (d.staged ++ bytes) hread⟩

/-- Nothing is decoded from no bytes. -/
theorem decode_nil {d : Decoder} (h : d.AtRest) : d.decode [] = ⟨d, [], none⟩ := by
  obtain ⟨hd, hread⟩ := h
  have hempty : d.reading [] = ⟨[], d.surrogate, 0, false⟩ := by
    rw [reading, List.append_nil, hread]
  rw [decode_of_read hd (by rw [hempty]), hempty, List.append_nil]
  rfl

/-- An error in a chunk hides what comes after it. -/
theorem decode_append_of_error {d : Decoder} {xs : List UInt8} (h : (d.decode xs).error ≠ none)
    (ys : List UInt8) : d.decode (xs ++ ys) = d.decode xs := by
  cases hd : d.poisoned with
  | true => simp [decode, hd]
  | false =>
    have hbad : (d.reading xs).malformed = true := by
      rw [← Bool.not_eq_false]
      exact fun hgood => h ((error_decode_eq_none_iff d xs).mpr ⟨hd, hgood⟩)
    have hmore : d.reading (xs ++ ys) = d.reading xs := by
      rw [reading, ← List.append_assoc]
      exact read_append_of_malformed d.charset d.surrogate (d.staged ++ xs) ys hbad
    rw [decode_of_malformed hd hbad, decode_of_malformed hd (hmore ▸ hbad), hmore]

/-- The decoder between two chunks reads what the first has left again, in front of the second. -/
theorem reading_append {d : Decoder} {xs : List UInt8} (h : (d.reading xs).malformed = false)
    (ys : List UInt8) :
    d.reading (xs ++ ys) =
      (d.reading xs).followedBy ((d.advance (d.staged ++ xs) (d.reading xs)).reading ys) := by
  rw [reading, ← List.append_assoc]
  exact read_append h ys

theorem advance_append {d : Decoder} {xs : List UInt8} (h : (d.reading xs).malformed = false)
    (ys : List UInt8) (after : Reading) :
    d.advance (d.staged ++ (xs ++ ys)) ((d.reading xs).followedBy after) =
      (d.advance (d.staged ++ xs) (d.reading xs)).advance
        ((d.staged ++ xs).drop (d.reading xs).reached ++ ys) after := by
  have hreached : (d.reading xs).reached ≤ (d.staged ++ xs).length :=
    reached_le d.charset d.surrogate (d.staged ++ xs) h
  rw [← List.append_assoc, ← List.drop_append_of_le_length hreached]
  simp [advance, Reading.followedBy, Nat.add_assoc, List.drop_drop]

/-- **Decoding on.**  A chunk behind one that was decoded without an error adds its text, and ends
with the same error or the same decoder.  After an error only the count of consumed bytes is
another one, and nobody asks a poisoned decoder for it. -/
theorem decode_append {d : Decoder} {xs : List UInt8} (h : (d.decode xs).error = none)
    (ys : List UInt8) :
    d.decode (xs ++ ys) =
      let after := (d.decode xs).decoder.decode ys
      ⟨if after.error = none then after.decoder else { after.decoder with consumed := d.consumed },
        (d.decode xs).text ++ after.text, after.error⟩ := by
  obtain ⟨hd, hread⟩ := (error_decode_eq_none_iff d xs).mp h
  have hmore := reading_append hread ys
  rw [decode_of_read hd hread]
  generalize hm : d.advance (d.staged ++ xs) (d.reading xs) = m at hmore
  have hmd : m.poisoned = false := by rw [← hm]; exact hd
  have hafter : (d.reading (xs ++ ys)).malformed = (m.reading ys).malformed := by rw [hmore]; rfl
  cases hgood : (m.reading ys).malformed with
  | true =>
    rw [decode_of_malformed hd (hafter.trans hgood), decode_of_malformed hmd hgood, hmore, ← hm]
    simp [advance, poison, Reading.followedBy, Nat.add_assoc]
  | false =>
    rw [decode_of_read hd (hafter.trans hgood), decode_of_read hmd hgood, hmore,
      advance_append hread, hm]
    simp only [if_true, ← hm]
    rfl

/-- Two chunks that are decoded together without an error are decoded one after the other. -/
theorem decode_append_eq {d : Decoder} {xs ys : List UInt8}
    (h : (d.decode (xs ++ ys)).error = none) :
    (d.decode xs).error = none ∧ ((d.decode xs).decoder.decode ys).error = none ∧
      d.decode (xs ++ ys) =
        ⟨((d.decode xs).decoder.decode ys).decoder,
          (d.decode xs).text ++ ((d.decode xs).decoder.decode ys).text, none⟩ := by
  have hfirst : (d.decode xs).error = none :=
    Classical.byContradiction fun hbad => hbad (decode_append_of_error hbad ys ▸ h)
  have happend := decode_append hfirst ys
  have hsecond : ((d.decode xs).decoder.decode ys).error = none := by
    rwa [happend] at h
  refine ⟨hfirst, hsecond, ?_⟩
  rw [happend]
  simp only [hsecond, if_true]

/-! ## Chunk after chunk -/

/-- Decodes chunk after chunk into one text, up to the first error. -/
def decodeChunks (d : Decoder) : List (List UInt8) → Decoded
  | [] => ⟨d, [], none⟩
  | chunk :: rest =>
    let result := d.decode chunk
    if result.error = none then
      let after := result.decoder.decodeChunks rest
      { after with text := result.text ++ after.text }
    else result

/-- Decoders that differ at most in how many bytes they have consumed. -/
def Alike (a b : Decoder) : Prop := { a with consumed := b.consumed } = b

theorem Alike.pendingBytes_eq {a b : Decoder} (h : a.Alike b) :
    a.pendingBytes = b.pendingBytes := by
  rw [Alike] at h
  have hpending := congrArg pendingBytes h
  exact hpending

theorem Alike.poisoned_eq {a b : Decoder} (h : a.Alike b) : a.poisoned = b.poisoned := by
  rw [Alike] at h
  have hpoisoned := congrArg Decoder.poisoned h
  exact hpoisoned

theorem decodeChunks_of_atRest {d : Decoder} (hd : d.AtRest) (chunks : List (List UInt8)) :
    let parts := d.decodeChunks chunks
    let whole := d.decode chunks.flatten
    parts.text = whole.text ∧ parts.error = whole.error ∧ parts.decoder.Alike whole.decoder ∧
      (whole.error = none → parts.decoder = whole.decoder) := by
  induction chunks generalizing d with
  | nil =>
    rw [decodeChunks, List.flatten_nil, decode_nil hd]
    exact ⟨rfl, rfl, rfl, fun _ => rfl⟩
  | cons chunk rest ih =>
    rw [decodeChunks, List.flatten_cons]
    by_cases h : (d.decode chunk).error = none
    · obtain ⟨htext, herror, halike, heq⟩ := ih (atRest_decode h)
      rw [decode_append h]
      simp only [if_pos h]
      refine ⟨by rw [htext], herror, ?_, ?_⟩
      · split
        · exact halike
        · rw [Alike] at halike ⊢
          rw [← halike]
      · intro hnone
        rw [if_pos hnone]
        exact heq hnone
    · rw [decode_append_of_error h]
      simp [h, Alike]

/-- **Where a stream is cut does not matter.**  Cut anywhere and decoded chunk by chunk up to the
first error, a stream gives the text, the error with its offset, the pending bytes and the state
of the decoder that it gives when it is decoded at once. -/
theorem decodeChunks_start (charset : Charset) (chunks : List (List UInt8)) :
    let parts := (start charset).decodeChunks chunks
    let whole := (start charset).decode chunks.flatten
    parts.text = whole.text ∧ parts.error = whole.error ∧
      parts.decoder.pendingBytes = whole.decoder.pendingBytes ∧
      parts.decoder.poisoned = whole.decoder.poisoned := by
  obtain ⟨htext, herror, halike, -⟩ := decodeChunks_of_atRest (atRest_start charset) chunks
  exact ⟨htext, herror, halike.pendingBytes_eq, halike.poisoned_eq⟩

/-- The second byte of the sequence is missing, which shows only in the second chunk.  The offset
counts from the beginning of the stream. -/
example :
    ((start .utf8).decodeChunks [[0x61, 0xC2], [0x41]]).error = some (.malformed .utf8 2) := by
  decide +kernel

end Decoder

end PromptLine
