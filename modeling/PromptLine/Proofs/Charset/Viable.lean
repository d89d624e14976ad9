import PromptLine.Proofs.Charset.Malformed

/-!
# UTF-8 that can still become valid

A stream of bytes is worth waiting for as long as some text begins with it (`Viable`).  What is
accepted is more than that.  A byte that does not continue a sequence is refused when it arrives,
but a value out of range only when its sequence is complete, and some sequences can be told to have
no such value by their first byte or their second (`Hopeless`): the overlong forms, the surrogates
and what lies above the last code point.  Such a sequence is held until its last byte is there.

These are all (`accepts_utf8_iff`), and the wait is for three bytes at most.
-/

namespace PromptLine

namespace Decoder

/-! ## Sequences that cannot be completed -/

/-- Bytes that some text begins with. -/
def Viable (bytes : List UInt8) : Prop :=
  ∃ text : Text, bytes <+: Charset.utf8.encode text

/-- The beginning of a sequence: fewer bytes than the first one asks for, and all of the others
continue it. -/
def Unfinished : List UInt8 → Prop
  | [] => False
  | first :: rest => ∃ size, utf8Length? first = some size ∧ rest.length + 1 < size ∧
      ∀ byte ∈ rest, isContinuation byte = true

/-- First bytes that ask for more, though everything they could begin is overlong or too large. -/
def NeverFirst (first : UInt8) : Prop :=
  first.toNat = 0xC0 ∨ first.toNat = 0xC1 ∨ 0xF5 ≤ first.toNat

/-- Second bytes that leave nothing but overlong forms, surrogates or values that are too large. -/
def NeverSecond (first second : UInt8) : Prop :=
  (first.toNat = 0xE0 ∧ second.toNat < 0xA0) ∨ (first.toNat = 0xED ∧ 0xA0 ≤ second.toNat) ∨
    (first.toNat = 0xF0 ∧ second.toNat < 0x90) ∨ (first.toNat = 0xF4 ∧ 0x90 ≤ second.toNat)

/-- Sequences that are known to have no valid value by their first two bytes. -/
def Hopeless : List UInt8 → Prop
  | [] => False
  | [first] => NeverFirst first
  | first :: second :: _ => NeverFirst first ∨ NeverSecond first second

/-- A text, and behind it a sequence that no further byte can help. -/
def Stuck (bytes : List UInt8) : Prop :=
  ∃ (text : Text) (tail : List UInt8), bytes = Charset.utf8.encode text ++ tail ∧
    Unfinished tail ∧ Hopeless tail

theorem Hopeless.append {bytes : List UInt8} (h : Hopeless bytes) (more : List UInt8) :
    Hopeless (bytes ++ more) := by
  match bytes, more, h with
  | [first], [], h => exact h
  | [first], second :: more, h => exact Or.inl h
  | first :: second :: rest, more, h => exact h

theorem Unfinished.length_le {tail : List UInt8} (h : Unfinished tail) : tail.length ≤ 3 := by
  match tail, h with
  | first :: rest, ⟨size, hsize, hshort, _⟩ =>
    have hsize := utf8Length?_eq_some_iff.mp hsize
    rw [List.length_cons]
    omega

/-- A complete sequence has a code point if its value is in range. -/
theorem exists_isSequence_iff_value {first : UInt8} {tail : List UInt8}
    (hsize : utf8Length? first = some (tail.length + 1))
    (hcontinues : ∀ byte ∈ tail, isContinuation byte = true) :
    (∃ c, IsSequence first tail c) ↔
      utf8Least (tail.length + 1) ≤ utf8Value (first :: tail) ∧
        (utf8Value (first :: tail) < 0xD800 ∨
          (0xDFFF < utf8Value (first :: tail) ∧ utf8Value (first :: tail) < 0x110000)) := by
  constructor
  · rintro ⟨c, hc⟩
    rw [hc.value]
    exact ⟨hc.least, toNat_scalar c⟩
  · rintro ⟨hleast, hscalar⟩
    have hvalue := toNat_ofNat_of_scalar hscalar
    exact ⟨_, hsize, hcontinues, hvalue.symm, hvalue.symm ▸ hleast⟩

/-- **The first two bytes decide.**  A complete sequence has a code point unless its first two bytes
rule that out. -/
theorem exists_isSequence_iff {first : UInt8} {tail : List UInt8}
    (hsize : utf8Length? first = some (tail.length + 1))
    (hcontinues : ∀ byte ∈ tail, isContinuation byte = true) :
    (∃ c, IsSequence first tail c) ↔ ¬Hopeless (first :: tail) := by
  rw [exists_isSequence_iff_value hsize hcontinues]
  rcases utf8Length?_eq_some_iff.mp hsize with ⟨hlen, hfirst⟩ | ⟨hlen, hfirst⟩ | ⟨hlen, hfirst⟩ |
    ⟨hlen, hfirst⟩
  · obtain rfl := List.length_eq_zero_iff.mp (Nat.succ.inj hlen)
    simp only [List.length_nil, utf8Least, utf8Value, Hopeless, NeverFirst]
    omega
  · obtain ⟨a, rfl⟩ := List.length_eq_one_iff.mp (Nat.succ.inj hlen)
    have ha := isContinuation_iff.mp (hcontinues a (by simp))
    simp only [List.length_cons, List.length_nil, utf8Least, utf8Value, Hopeless, NeverFirst,
      NeverSecond]
    omega
  · obtain ⟨a, b, rfl⟩ := List.length_eq_two.mp (Nat.succ.inj hlen)
    have ha := isContinuation_iff.mp (hcontinues a (by simp))
    have hb := isContinuation_iff.mp (hcontinues b (by simp))
    simp only [List.length_cons, List.length_nil, utf8Least, utf8Value, Hopeless, NeverFirst,
      NeverSecond]
    omega
  · obtain ⟨a, b, d, rfl⟩ := List.length_eq_three.mp (Nat.succ.inj hlen)
    have ha := isContinuation_iff.mp (hcontinues a (by simp))
    have hb := isContinuation_iff.mp (hcontinues b (by simp))
    have hd := isContinuation_iff.mp (hcontinues d (by simp))
    simp only [List.length_cons, List.length_nil, utf8Least, utf8Value, Hopeless, NeverFirst,
      NeverSecond]
    omega

/-- The least second byte that is allowed behind a first one. -/
def leastSecond (first : UInt8) : UInt8 :=
  if first.toNat = 0xE0 then 0xA0 else if first.toNat = 0xF0 then 0x90 else 0x80

theorem leastSecond_allowed (first : UInt8) :
    isContinuation (leastSecond first) = true ∧ ¬NeverSecond first (leastSecond first) := by
  rw [isContinuation_iff, NeverSecond, leastSecond]
  split_ifs with he hf <;> simp <;> omega

/-- A sequence with some hope is completed by the least bytes that are allowed. -/
theorem exists_completion {first : UInt8} {rest : List UInt8} {size : Nat}
    (hshort : rest.length + 1 < size)
    (hcontinues : ∀ byte ∈ rest, isContinuation byte = true) (h : ¬Hopeless (first :: rest)) :
    ∃ more : List UInt8, (rest ++ more).length + 1 = size ∧
      (∀ byte ∈ rest ++ more, isContinuation byte = true) ∧ ¬Hopeless (first :: (rest ++ more)) := by
  cases rest with
  | nil =>
    obtain ⟨hsecond, hallowed⟩ := leastSecond_allowed first
    refine ⟨leastSecond first :: List.replicate (size - 2) 0x80, ?_, ?_, ?_⟩
    · rw [List.nil_append, List.length_cons, List.length_replicate]
      rw [List.length_nil] at hshort
      omega
    · rw [List.nil_append, List.forall_mem_cons]
      exact ⟨hsecond, fun byte hbyte => by rw [List.eq_of_mem_replicate hbyte]; rfl⟩
    · exact fun hnever => hnever.elim h hallowed
  | cons second rest =>
    refine ⟨List.replicate (size - 1 - (second :: rest).length) 0x80, ?_, ?_, h⟩
    · rw [List.length_append, List.length_replicate]
      omega
    · intro byte hbyte
      rcases List.mem_append.mp hbyte with hbyte | hbyte
      · exact hcontinues byte hbyte
      · rw [List.eq_of_mem_replicate hbyte]
        rfl

/-- **An unfinished sequence can be finished unless it is hopeless.** -/
theorem viable_unfinished_iff {tail : List UInt8} (h : Unfinished tail) :
    Viable tail ↔ ¬Hopeless tail := by
  match tail, h with
  | first :: rest, ⟨size, hsize, hshort, hcontinues⟩ =>
    constructor
    · rintro ⟨text, more, htext⟩ hhopeless
      cases text with
      | nil => cases htext
      | cons c text =>
        obtain ⟨first', tail, hbytes, hsequence⟩ := isSequence_utf8Bytes c
        rw [Charset.encode_cons, Charset.encodeChar, hbytes, List.cons_append, List.cons_append,
          List.cons.injEq] at htext
        obtain ⟨rfl, htext⟩ := htext
        have hlength := Option.some.inj (hsize.symm.trans hsequence.size)
        -- the code point has all the bytes that are there, and more
        have hprefix : rest <+: tail :=
          List.prefix_of_prefix_length_le ⟨more, htext⟩ (List.prefix_append tail _) (by omega)
        obtain ⟨further, rfl⟩ := hprefix
        exact (exists_isSequence_iff hsequence.size hsequence.continues).mp ⟨c, hsequence⟩
          (hhopeless.append further)
    · intro hhope
      obtain ⟨more, hlength, hall, hhope⟩ := exists_completion hshort hcontinues hhope
      rw [← hlength] at hsize
      obtain ⟨c, hc⟩ := (exists_isSequence_iff hsize hall).mpr hhope
      refine ⟨[c], more, ?_⟩
      rw [Charset.encode_cons, Charset.encode_nil, List.append_nil, Charset.encodeChar,
        utf8Bytes_of_isSequence hc, List.cons_append]

/-! ## Behind a text -/

/-- Behind a text that was written, reading begins anew. -/
theorem read_encode_append (charset : Charset) (text : Text) (bytes : List UInt8) :
    read charset none (charset.encode text ++ bytes) =
      Reading.followedBy ⟨text.map charset.substitute, none, (charset.encode text).length, false⟩
        (read charset none bytes) := by
  rw [read_append (by rw [read_encode]), read_encode, List.drop_length, List.nil_append]

/-- A text in front does not make bytes viable, nor does it keep them from it. -/
theorem viable_encode_append_iff (text : Text) (bytes : List UInt8) :
    Viable (Charset.utf8.encode text ++ bytes) ↔ Viable bytes := by
  constructor
  · rintro ⟨whole, more, hwhole⟩
    rw [List.append_assoc] at hwhole
    have hread := (read_encode_append .utf8 text (bytes ++ more)).symm
    rw [hwhole, read_encode] at hread
    have hgood : (read .utf8 none (bytes ++ more)).malformed = false :=
      congrArg Reading.malformed hread
    have hreached : (Charset.utf8.encode text).length + (read .utf8 none (bytes ++ more)).reached =
        (Charset.utf8.encode whole).length := congrArg Reading.reached hread
    rw [← hwhole, List.length_append, Nat.add_left_cancel_iff] at hreached
    have hconserved := conserved_read hgood fun _ h => nomatch h
    rw [hreached, List.take_length] at hconserved
    exact ⟨_, more, (List.append_nil _).symm.trans hconserved |>.symm⟩
  · rintro ⟨rest, hrest⟩
    refine ⟨text ++ rest, ?_⟩
    rw [Charset.encode_append]
    exact (List.prefix_append_right_inj _).mpr hrest

/-- An unfinished sequence is left as it is. -/
theorem read_unfinished {tail : List UInt8} (h : tail = [] ∨ Unfinished tail) :
    read .utf8 none tail = ⟨[], none, 0, false⟩ := by
  match tail, h with
  | [], _ => rw [read]
  | first :: rest, Or.inr h => exact read_of_incomplete (frontUtf8_eq_incomplete_iff.mpr h)

/-- Behind a text, an unfinished sequence is held as pending. -/
theorem decode_encode_unfinished (text : Text) {tail : List UInt8}
    (h : tail = [] ∨ Unfinished tail) :
    (start .utf8).decode (Charset.utf8.encode text ++ tail) =
      ⟨⟨.utf8, (Charset.utf8.encode text).length, tail, none, false⟩, text, none⟩ := by
  have hread : (start .utf8).reading (Charset.utf8.encode text ++ tail) =
      ⟨text, none, (Charset.utf8.encode text).length, false⟩ := by
    have hsame : text.map Charset.utf8.substitute = text :=
      Charset.map_substitute .utf8 fun _ _ => rfl
    have happend := read_encode_append .utf8 text tail
    rwa [read_unfinished h, hsame, Reading.followedBy, List.append_nil, Nat.add_zero] at happend
  rw [decode_of_read rfl (by rw [hread]), hread, advance, start]
  simp

/-- What is accepted is a text, and behind it nothing or an unfinished sequence. -/
theorem accepts_utf8_iff_exists {bytes : List UInt8} :
    Accepts .utf8 bytes ↔ ∃ (text : Text) (tail : List UInt8),
      bytes = Charset.utf8.encode text ++ tail ∧ (tail = [] ∨ Unfinished tail) := by
  constructor
  · intro haccepts
    have hgood := accepts_iff.mp haccepts
    have hconserved := conserved_read hgood fun _ h => nomatch h
    have hleft := read_left .utf8 none bytes hgood
    refine ⟨(read .utf8 none bytes).text, bytes.drop (read .utf8 none bytes).reached, ?_, ?_⟩
    · rw [← List.append_nil (Charset.encode _ _)]
      exact (List.take_append_drop _ _).symm.trans (congrArg (· ++ _) hconserved.symm)
    · generalize bytes.drop (read .utf8 none bytes).reached = tail at hleft
      cases tail with
      | nil => exact Or.inl rfl
      | cons first rest =>
        exact Or.inr (frontUtf8_eq_incomplete_iff.mp (incomplete_of_read hleft))
  · rintro ⟨text, tail, rfl, htail⟩
    rw [Accepts, decode_encode_unfinished text htail]

theorem not_viable_of_stuck {bytes : List UInt8} (h : Stuck bytes) : ¬Viable bytes := by
  obtain ⟨text, tail, rfl, hunfinished, hhopeless⟩ := h
  rw [viable_encode_append_iff, viable_unfinished_iff hunfinished]
  exact not_not_intro hhopeless

/-- **What is accepted of UTF-8.**  A stream is accepted exactly if it is the beginning of a text,
or a text and the beginning of a sequence that cannot be completed.  The latter is no beginning of a
text, and yet is held as pending; but three bytes later at most, it is refused. -/
theorem accepts_utf8_iff (bytes : List UInt8) :
    (Accepts .utf8 bytes ↔ Viable bytes ∨ Stuck bytes) ∧
      (Stuck bytes →
        ¬Viable bytes ∧ 0 < ((start .utf8).decode bytes).decoder.pendingBytes) ∧
      ∀ more, 3 ≤ more.length → Accepts .utf8 (bytes ++ more) → Viable bytes := by
  refine ⟨⟨?_, ?_⟩, ?_, ?_⟩
  · intro haccepts
    obtain ⟨text, tail, rfl, htail⟩ := accepts_utf8_iff_exists.mp haccepts
    rcases htail with rfl | htail
    · exact Or.inl ⟨text, by simp⟩
    · by_cases hhopeless : Hopeless tail
      · exact Or.inr ⟨text, tail, rfl, htail, hhopeless⟩
      · left
        rw [viable_encode_append_iff, viable_unfinished_iff htail]
        exact hhopeless
  · rintro (⟨text, more, htext⟩ | ⟨text, tail, rfl, htail, -⟩)
    · have haccepts : Accepts .utf8 (bytes ++ more) :=
        htext ▸ accepts_utf8_iff_exists.mpr ⟨text, [], (List.append_nil _).symm, Or.inl rfl⟩
      exact (decode_append_eq haccepts).1
    · exact accepts_utf8_iff_exists.mpr ⟨text, tail, rfl, Or.inr htail⟩
  · intro hstuck
    refine ⟨not_viable_of_stuck hstuck, ?_⟩
    obtain ⟨text, tail, rfl, htail, -⟩ := hstuck
    rw [decode_encode_unfinished text (Or.inr htail), pendingBytes]
    cases tail with
    | nil => exact htail.elim
    | cons first rest => simp
  · intro more hmore haccepts
    obtain ⟨text, tail, htext, htail⟩ := accepts_utf8_iff_exists.mp haccepts
    have hshort : tail.length ≤ 3 := by
      rcases htail with rfl | htail
      · exact Nat.zero_le _
      · exact htail.length_le
    -- the tail ends where `more` does and is no longer, so the text has all of `bytes`
    have hlength := congrArg List.length htext
    rw [List.length_append, List.length_append] at hlength
    exact ⟨text, List.prefix_of_prefix_length_le (List.prefix_append bytes more)
      (htext ▸ List.prefix_append _ tail) (by omega)⟩

/-- Two of the three bytes of a euro sign, and the third with what comes after it. -/
theorem viable_euroSign :
    Accepts .utf8 ([0xE2, 0x82] ++ [0xAC, 0x61, 0x62]) ∧ Viable [0xE2, 0x82] :=
  have haccepts : Accepts .utf8 ([0xE2, 0x82] ++ [0xAC, 0x61, 0x62]) := by decide +kernel
  ⟨haccepts, (accepts_utf8_iff [0xE2, 0x82]).2.2 [0xAC, 0x61, 0x62] (by decide) haccepts⟩

/-- No text begins with the first byte of an overlong form, and it is held all the same. -/
theorem accepts_overlong_start :
    Accepts .utf8 [0xC0] ∧ ((start .utf8).decode [0xC0]).decoder.pendingBytes = 1 ∧
      ¬Viable [0xC0] :=
  ⟨by decide +kernel, by decide +kernel, not_viable_of_stuck ⟨[], [0xC0], rfl,
    ⟨2, rfl, by decide, fun _ h => absurd h List.not_mem_nil⟩, Or.inl rfl⟩⟩

end Decoder

end PromptLine
