import Mathlib.Data.List.Basic
import Mathlib.Tactic.SplitIfs
import PromptLine.Proofs.Charset.Chunks

/-!
# Reading what was written, and writing what was read

Writing and reading are inverse to each other: one unit at a time, and by that for whole texts.
What a charset writes for a code point stands at the front as that code point (`read_encodeChar`).
The other way round, a unit that was read is written by the same bytes (`conserved_front`), where a
surrogate that waits stands for its two bytes.  So nothing but the one written form of a text is
ever read without an error: no overlong form, no surrogate written by itself, nothing above the
last code point.
-/

namespace PromptLine

/-- A code point is below the surrogates or above them, and below the end of all planes. -/
theorem toNat_scalar (c : Char) :
    c.toNat < 0xD800 ∨ (0xDFFF < c.toNat ∧ c.toNat < 0x110000) := by
  have hvalid := c.valid
  simp only [UInt32.isValidChar, Nat.isValidChar, Char.toNat_val] at hvalid
  exact hvalid

namespace Charset

/-- What is read in place of a code point. -/
def substitute (charset : Charset) (c : Char) : Char := if charset.represents c then c else '?'

/-- What is represented is not substituted. -/
theorem map_substitute (charset : Charset) {text : Text}
    (h : ∀ c ∈ text, charset.represents c = true) : text.map charset.substitute = text := by
  have hsame : text.map charset.substitute = text.map id := by
    refine List.map_congr_left fun c hc => ?_
    rw [substitute, h c hc]
    rfl
  rw [hsame, List.map_id]

/-- The bytes of a code point in UTF-8 are those that strings are made of. -/
theorem utf8Bytes_eq (c : Char) : utf8Bytes c = String.utf8EncodeChar c := by
  have hscalar := toNat_scalar c
  unfold utf8Bytes String.utf8EncodeChar
  rw [Char.toNat_val]
  dsimp only
  by_cases h₁ : c.toNat < 0x80
  · rw [if_pos h₁, if_pos (by omega)]
  · by_cases h₂ : c.toNat < 0x800
    · rw [if_neg h₁, if_pos h₂, if_neg (by omega), if_pos (by omega),
        show 0xC0 + c.toNat / 64 = c.toNat / 64 % 32 + 0xC0 by omega, Nat.add_comm 0x80]
    · by_cases h₃ : c.toNat < 0x10000
      · rw [if_neg h₁, if_neg h₂, if_pos h₃, if_neg (by omega), if_neg (by omega),
          if_pos (by omega), show 0xE0 + c.toNat / 4096 = c.toNat / 4096 % 16 + 0xE0 by omega,
          Nat.add_comm 0x80, Nat.add_comm 0x80]
      · rw [if_neg h₁, if_neg h₂, if_neg h₃, if_neg (by omega), if_neg (by omega),
          if_neg (by omega), show 0xF0 + c.toNat / 262144 = c.toNat / 262144 % 8 + 0xF0 by omega,
          Nat.add_comm 0x80, Nat.add_comm 0x80, Nat.add_comm 0x80]

end Charset

namespace Decoder

/-! ## UTF-8 -/

theorem scalar?_toNat (c : Char) : scalar? c.toNat = some c := by
  rw [scalar?, if_pos (toNat_scalar c), Char.ofNat_toNat]

theorem toNat_of_scalar? {n : Nat} {c : Char} (h : scalar? n = some c) : c.toNat = n := by
  unfold scalar? at h
  split at h
  · next hn =>
    cases h
    rw [Char.ofNat, dif_pos hn]
    rfl
  · cases h

theorem utf8Length?_eq_some_iff {first : UInt8} {size : Nat} :
    utf8Length? first = some size ↔
      (size = 1 ∧ first.toNat < 0x80) ∨ (size = 2 ∧ 0xC0 ≤ first.toNat ∧ first.toNat < 0xE0) ∨
        (size = 3 ∧ 0xE0 ≤ first.toNat ∧ first.toNat < 0xF0) ∨
        (size = 4 ∧ 0xF0 ≤ first.toNat ∧ first.toNat < 0xF8) := by
  unfold utf8Length?
  dsimp only
  split_ifs <;> simp only [Option.some.injEq, false_iff] <;> omega

theorem isContinuation_iff {byte : UInt8} :
    isContinuation byte = true ↔ 0x80 ≤ byte.toNat ∧ byte.toNat < 0xC0 := by
  rw [isContinuation, Bool.and_eq_true, decide_eq_true_iff, decide_eq_true_iff]

/-- A sequence in the form in which a code point is written. -/
structure IsSequence (first : UInt8) (tail : List UInt8) (c : Char) : Prop where
  size : utf8Length? first = some (tail.length + 1)
  continues : ∀ byte ∈ tail, isContinuation byte = true
  value : utf8Value (first :: tail) = c.toNat
  least : utf8Least (tail.length + 1) ≤ c.toNat

theorem toNat_ofNat_of_lt {n : Nat} (h : n < 256) : (UInt8.ofNat n).toNat = n := by
  rw [UInt8.toNat_ofNat', Nat.mod_eq_of_lt h]

theorem ofNat_eq {n : Nat} {byte : UInt8} (h : n = byte.toNat) : UInt8.ofNat n = byte := by
  rw [h, UInt8.ofNat_toNat]

/-- What UTF-8 writes for a code point is one sequence. -/
theorem isSequence_utf8Bytes (c : Char) :
    ∃ first tail, Charset.utf8Bytes c = first :: tail ∧ IsSequence first tail c := by
  have hscalar := toNat_scalar c
  have hlast : (UInt8.ofNat (0x80 + c.toNat % 64)).toNat = 0x80 + c.toNat % 64 :=
    toNat_ofNat_of_lt (by omega)
  have hmiddle : (UInt8.ofNat (0x80 + c.toNat / 64 % 64)).toNat = 0x80 + c.toNat / 64 % 64 :=
    toNat_ofNat_of_lt (by omega)
  unfold Charset.utf8Bytes
  dsimp only
  by_cases h₁ : c.toNat < 0x80
  · have hfirst : (UInt8.ofNat c.toNat).toNat = c.toNat := toNat_ofNat_of_lt (by omega)
    rw [if_pos h₁]
    refine ⟨_, _, rfl, utf8Length?_eq_some_iff.mpr (Or.inl ⟨rfl, ?_⟩), ?_, ?_, ?_⟩
    · rwa [hfirst]
    · exact fun _ hmem => absurd hmem List.not_mem_nil
    · rw [utf8Value, hfirst]
    · exact Nat.zero_le _
  · by_cases h₂ : c.toNat < 0x800
    · have hfirst : (UInt8.ofNat (0xC0 + c.toNat / 64)).toNat = 0xC0 + c.toNat / 64 :=
        toNat_ofNat_of_lt (by omega)
      rw [if_neg h₁, if_pos h₂]
      refine ⟨_, _, rfl, utf8Length?_eq_some_iff.mpr (Or.inr (Or.inl ⟨rfl, ?_, ?_⟩)), ?_, ?_, ?_⟩
      · omega
      · omega
      · simp only [List.forall_mem_cons, List.not_mem_nil, false_imp_iff, implies_true, and_true,
          isContinuation_iff, hlast]
        omega
      · rw [utf8Value, hfirst, hlast]
        omega
      · simp only [List.length_cons, List.length_nil, utf8Least]
        omega
    · by_cases h₃ : c.toNat < 0x10000
      · have hfirst : (UInt8.ofNat (0xE0 + c.toNat / 4096)).toNat = 0xE0 + c.toNat / 4096 :=
          toNat_ofNat_of_lt (by omega)
        rw [if_neg h₁, if_neg h₂, if_pos h₃]
        refine ⟨_, _, rfl, utf8Length?_eq_some_iff.mpr (Or.inr (Or.inr (Or.inl ⟨rfl, ?_, ?_⟩))),
          ?_, ?_, ?_⟩
        · omega
        · omega
        · simp only [List.forall_mem_cons, List.not_mem_nil, false_imp_iff, implies_true, and_true,
            isContinuation_iff, hlast, hmiddle]
          omega
        · rw [utf8Value, hfirst, hlast, hmiddle]
          omega
        · simp only [List.length_cons, List.length_nil, utf8Least]
          omega
      · have hfirst : (UInt8.ofNat (0xF0 + c.toNat / 262144)).toNat = 0xF0 + c.toNat / 262144 :=
          toNat_ofNat_of_lt (by omega)
        have hsecond :
            (UInt8.ofNat (0x80 + c.toNat / 4096 % 64)).toNat = 0x80 + c.toNat / 4096 % 64 :=
          toNat_ofNat_of_lt (by omega)
        rw [if_neg h₁, if_neg h₂, if_neg h₃]
        refine ⟨_, _, rfl, utf8Length?_eq_some_iff.mpr (Or.inr (Or.inr (Or.inr ⟨rfl, ?_, ?_⟩))),
          ?_, ?_, ?_⟩
        · omega
        · omega
        · simp only [List.forall_mem_cons, List.not_mem_nil, false_imp_iff, implies_true, and_true,
            isContinuation_iff, hlast, hmiddle, hsecond]
          omega
        · rw [utf8Value, hfirst, hlast, hmiddle, hsecond]
          omega
        · simp only [List.length_cons, List.length_nil, utf8Least]
          omega

/-- A sequence is what UTF-8 writes for its code point. -/
theorem utf8Bytes_of_isSequence {first : UInt8} {tail : List UInt8} {c : Char}
    (h : IsSequence first tail c) : Charset.utf8Bytes c = first :: tail := by
  obtain ⟨hsize, hcontinues, hvalue, hleast⟩ := h
  have hscalar := toNat_scalar c
  unfold Charset.utf8Bytes
  dsimp only
  rcases utf8Length?_eq_some_iff.mp hsize with ⟨hlen, hfirst⟩ | ⟨hlen, hfirst⟩ | ⟨hlen, hfirst⟩ |
    ⟨hlen, hfirst⟩
  · obtain rfl := List.length_eq_zero_iff.mp (Nat.succ.inj hlen)
    rw [utf8Value] at hvalue
    rw [if_pos (by omega), ofNat_eq hvalue.symm]
  · obtain ⟨b, rfl⟩ := List.length_eq_one_iff.mp (Nat.succ.inj hlen)
    have hb := isContinuation_iff.mp (hcontinues b (by simp))
    rw [utf8Value] at hvalue
    simp only [List.length_cons, List.length_nil, utf8Least] at hleast
    rw [if_neg (by omega), if_pos (by omega), @ofNat_eq _ first (by omega),
      @ofNat_eq _ b (by omega)]
  · obtain ⟨a, b, rfl⟩ := List.length_eq_two.mp (Nat.succ.inj hlen)
    have ha := isContinuation_iff.mp (hcontinues a (by simp))
    have hb := isContinuation_iff.mp (hcontinues b (by simp))
    rw [utf8Value] at hvalue
    simp only [List.length_cons, List.length_nil, utf8Least] at hleast
    rw [if_neg (by omega), if_neg (by omega), if_pos (by omega), @ofNat_eq _ first (by omega),
      @ofNat_eq _ a (by omega), @ofNat_eq _ b (by omega)]
  · obtain ⟨a, b, d, rfl⟩ := List.length_eq_three.mp (Nat.succ.inj hlen)
    have ha := isContinuation_iff.mp (hcontinues a (by simp))
    have hb := isContinuation_iff.mp (hcontinues b (by simp))
    have hd := isContinuation_iff.mp (hcontinues d (by simp))
    rw [utf8Value] at hvalue
    simp only [List.length_cons, List.length_nil, utf8Least] at hleast
    rw [if_neg (by omega), if_neg (by omega), if_neg (by omega), @ofNat_eq _ first (by omega),
      @ofNat_eq _ a (by omega), @ofNat_eq _ b (by omega), @ofNat_eq _ d (by omega)]

/-- The sequence that was written for a code point is read as that code point. -/
theorem frontUtf8_of_isSequence {first : UInt8} {tail : List UInt8} {c : Char}
    (h : IsSequence first tail c) (surrogate : Option Nat) (rest : List UInt8) :
    frontUtf8 surrogate first (tail ++ rest) = .unit tail.length (some c) surrogate := by
  have hgood : (tail.findIdx? fun byte => !isContinuation byte) = none := by
    rw [List.findIdx?_eq_none_iff]
    intro byte hbyte
    rw [h.continues byte hbyte]
    rfl
  unfold frontUtf8
  rw [h.size]
  dsimp only
  rw [Nat.add_sub_cancel, List.take_left, hgood]
  dsimp only
  rw [if_neg (Nat.lt_irrefl _), h.value, if_neg (Nat.not_lt.mpr h.least), scalar?_toNat]

/-- What is read as a unit of UTF-8 is a sequence. -/
theorem isSequence_of_frontUtf8 {surrogate waiting : Option Nat} {first : UInt8}
    {rest : List UInt8} {further : Nat} {c? : Option Char}
    (h : frontUtf8 surrogate first rest = .unit further c? waiting) :
    ∃ c, c? = some c ∧ waiting = surrogate ∧ IsSequence first (rest.take further) c := by
  unfold frontUtf8 at h
  split at h
  · cases h
  · next size hsize =>
    dsimp only at h
    split at h
    · cases h
    · next hgood =>
      split at h
      · cases h
      · next hlong =>
        split at h
        · cases h
        · next hleast =>
          split at h
          · cases h
          · next c hc =>
            cases h
            have hlength : (rest.take (size - 1)).length + 1 = size := by
              have hshort := List.length_take_le (size - 1) rest
              rcases utf8Length?_eq_some_iff.mp hsize with hsize | hsize | hsize | hsize <;> omega
            rw [List.findIdx?_eq_none_iff] at hgood
            refine ⟨c, rfl, rfl, hsize.trans (congrArg some hlength.symm), ?_,
              (toNat_of_scalar? hc).symm, ?_⟩
            · intro byte hbyte
              simpa using hgood byte hbyte
            · rw [hlength, toNat_of_scalar? hc]
              exact Nat.not_lt.mp hleast

/-! ## UTF-16 -/

/-- A way to put two bytes together to a unit, and the way to take it apart. -/
structure IsByteOrder (unitOf : UInt8 → UInt8 → Nat) (bytesOf : Nat → List UInt8) : Prop where
  unit_lt : ∀ a b, unitOf a b < 0x10000
  bytes_of_unit : ∀ a b, bytesOf (unitOf a b) = [a, b]
  exists_bytes : ∀ unit < 0x10000, ∃ a b, bytesOf unit = [a, b] ∧ unitOf a b = unit

theorem isByteOrder_bigEndian : IsByteOrder bigEndian Charset.bigEndianBytes where
  unit_lt a b := by
    have := a.toNat_lt
    have := b.toNat_lt
    rw [bigEndian]
    omega
  bytes_of_unit a b := by
    have := b.toNat_lt
    rw [Charset.bigEndianBytes, bigEndian, @ofNat_eq _ a (by omega), @ofNat_eq _ b (by omega)]
  exists_bytes unit h := by
    refine ⟨.ofNat (unit / 256), .ofNat (unit % 256), rfl, ?_⟩
    rw [bigEndian, toNat_ofNat_of_lt (by omega), toNat_ofNat_of_lt (by omega)]
    omega

theorem isByteOrder_littleEndian : IsByteOrder littleEndian Charset.littleEndianBytes where
  unit_lt a b := isByteOrder_bigEndian.unit_lt b a
  bytes_of_unit a b := by
    have h := isByteOrder_bigEndian.bytes_of_unit b a
    rw [Charset.bigEndianBytes, List.cons.injEq, List.cons.injEq] at h
    rw [Charset.littleEndianBytes, littleEndian, h.1, h.2.1]
  exists_bytes unit h := by
    obtain ⟨a, b, hbytes, hunit⟩ := isByteOrder_bigEndian.exists_bytes unit h
    rw [Charset.bigEndianBytes, List.cons.injEq, List.cons.injEq] at hbytes
    exact ⟨b, a, by rw [Charset.littleEndianBytes, hbytes.1, hbytes.2.1], hunit⟩

theorem isHighSurrogate_iff {unit : Nat} :
    isHighSurrogate unit = true ↔ 0xD800 ≤ unit ∧ unit ≤ 0xDBFF := by
  rw [isHighSurrogate, Bool.and_eq_true, decide_eq_true_iff, decide_eq_true_iff]

theorem isLowSurrogate_iff {unit : Nat} :
    isLowSurrogate unit = true ↔ 0xDC00 ≤ unit ∧ unit ≤ 0xDFFF := by
  rw [isLowSurrogate, Bool.and_eq_true, decide_eq_true_iff, decide_eq_true_iff]

theorem toNat_ofNat_of_scalar {n : Nat} (h : n < 0xD800 ∨ (0xDFFF < n ∧ n < 0x110000)) :
    (Char.ofNat n).toNat = n := by
  rw [Char.ofNat, dif_pos h]
  rfl

theorem toNat_ofSurrogates {high low : Nat} (hhigh : isHighSurrogate high = true)
    (hlow : isLowSurrogate low = true) :
    (ofSurrogates high low).toNat = 0x10000 + (high - 0xD800) * 1024 + (low - 0xDC00) := by
  rw [isHighSurrogate_iff] at hhigh
  rw [isLowSurrogate_iff] at hlow
  rw [ofSurrogates, highSurrogateBase, lowSurrogateBase]
  exact toNat_ofNat_of_scalar (by omega)

/-- **Units are conserved.**  The units of the code point that a unit completes, and the surrogate
that waits now, are the surrogate that waited before and the unit. -/
theorem units_of_frontUnit {surrogate waiting : Option Nat} {unit further : Nat}
    {c? : Option Char} (h : frontUnit surrogate unit = .unit further c? waiting)
    (hunit : unit < 0x10000) (hheld : ∀ high ∈ surrogate, isHighSurrogate high = true) :
    c?.toList.flatMap Charset.utf16Units ++ waiting.toList = surrogate.toList ++ [unit] ∧
      ∀ high ∈ waiting, isHighSurrogate high = true := by
  unfold frontUnit at h
  split at h
  · next high =>
    split at h
    · next hlow =>
      cases h
      have hhigh := hheld high rfl
      have hpair := toNat_ofSurrogates hhigh hlow
      rw [isHighSurrogate_iff] at hhigh
      rw [isLowSurrogate_iff] at hlow
      refine ⟨?_, fun _ hnone => by cases hnone⟩
      simp only [Option.toList, List.flatMap_cons, List.flatMap_nil, List.append_nil,
        Charset.utf16Units]
      rw [if_neg (by omega), hpair, highSurrogateBase, lowSurrogateBase]
      simp only [List.cons_append, List.nil_append, List.cons.injEq, and_true]
      omega
    · cases h
  · split at h
    · next hhigh =>
      cases h
      exact ⟨rfl, fun _ hmem => by cases hmem; exact hhigh⟩
    · next hhigh =>
      split at h
      · cases h
      · next hlow =>
        cases h
        rw [isHighSurrogate_iff] at hhigh
        rw [isLowSurrogate_iff] at hlow
        refine ⟨?_, fun _ hnone => by cases hnone⟩
        have hscalar : unit < 0xD800 ∨ (0xDFFF < unit ∧ unit < 0x110000) := by omega
        simp only [Option.toList, List.flatMap_cons, List.flatMap_nil, List.append_nil,
          List.nil_append, Charset.utf16Units]
        rw [toNat_ofNat_of_scalar hscalar, if_pos hunit]

theorem behind_behind (r : Reading) (size further : Nat) (c? : Option Char) :
    (r.behind size c?).behind further none = r.behind (size + further) c? := by
  simp [Reading.behind, Nat.add_assoc]

section Units

variable {charset : Charset} {unitOf : UInt8 → UInt8 → Nat} {bytesOf : Nat → List UInt8}

theorem read_unit (horder : IsByteOrder unitOf bytesOf)
    (hfront : front charset = frontUtf16 unitOf) {surrogate waiting : Option Nat} {unit : Nat}
    {c? : Option Char} (hunit : unit < 0x10000)
    (h : frontUnit surrogate unit = .unit 1 c? waiting) (rest : List UInt8) :
    read charset surrogate (bytesOf unit ++ rest) = (read charset waiting rest).behind 2 c? := by
  obtain ⟨a, b, hbytes, hof⟩ := horder.exists_bytes unit hunit
  have hab : front charset surrogate a (b :: rest) = .unit 1 c? waiting := by
    rw [hfront, frontUtf16, hof, h]
  rw [hbytes]
  exact read_of_unit hab

/-- The units of a code point are read as that code point. -/
theorem read_utf16Units (horder : IsByteOrder unitOf bytesOf)
    (hfront : front charset = frontUtf16 unitOf) (c : Char) (rest : List UInt8) :
    read charset none ((Charset.utf16Units c).flatMap bytesOf ++ rest) =
      (read charset none rest).behind ((Charset.utf16Units c).flatMap bytesOf).length (some c) := by
  have hscalar := toNat_scalar c
  unfold Charset.utf16Units
  dsimp only
  by_cases hplane : c.toNat < 0x10000
  · have hunit : frontUnit none c.toNat = .unit 1 (some c) none := by
      rw [frontUnit, if_neg (by rw [isHighSurrogate_iff]; omega),
        if_neg (by rw [isLowSurrogate_iff]; omega), Char.ofNat_toNat]
    obtain ⟨a, b, hbytes, -⟩ := horder.exists_bytes c.toNat hplane
    rw [if_pos hplane, List.flatMap_singleton, read_unit horder hfront hplane hunit, hbytes]
    rfl
  · rw [if_neg hplane, highSurrogateBase, lowSurrogateBase]
    generalize hhigh : 0xD800 + (c.toNat - 0x10000) / 1024 = high
    generalize hlow : 0xDC00 + (c.toNat - 0x10000) % 1024 = low
    have ishigh : isHighSurrogate high = true := by rw [isHighSurrogate_iff]; omega
    have islow : isLowSurrogate low = true := by rw [isLowSurrogate_iff]; omega
    have hpair : ofSurrogates high low = c := by
      rw [← Char.toNat_inj, toNat_ofSurrogates ishigh islow]
      omega
    have hfirst : frontUnit none high = .unit 1 none (some high) := by
      rw [frontUnit, if_pos ishigh]
    have hsecond : frontUnit (some high) low = .unit 1 (some c) none := by
      rw [frontUnit, if_pos islow, hpair]
    obtain ⟨a₁, b₁, hbytes₁, -⟩ := horder.exists_bytes high (by omega)
    obtain ⟨a₂, b₂, hbytes₂, -⟩ := horder.exists_bytes low (by omega)
    rw [List.flatMap_cons, List.flatMap_singleton, List.append_assoc,
      read_unit horder hfront (by omega) hfirst, read_unit horder hfront (by omega) hsecond,
      behind_behind, hbytes₁, hbytes₂]
    rfl

end Units

/-! ## Single bytes -/

theorem toNat_byteBelow {count : Nat} (hcount : count ≤ 256) (c : Char) :
    (Charset.byteBelow count c).toNat = if c.toNat < count then c.toNat else 0x3F := by
  rw [Charset.byteBelow]
  split
  · exact toNat_ofNat_of_lt (by omega)
  · rfl

/-- The code point of the byte that was written. -/
theorem ofNat_byteBelow {count : Nat} (hcount : count ≤ 256) (c : Char) :
    Char.ofNat (Charset.byteBelow count c).toNat = if c.toNat < count then c else '?' := by
  rw [toNat_byteBelow hcount]
  split
  · exact Char.ofNat_toNat c
  · rfl

/-- The byte of the code point that was read. -/
theorem byteBelow_ofNat {count : Nat} {byte : UInt8} (h : byte.toNat < count) :
    Charset.byteBelow count (Char.ofNat byte.toNat) = byte := by
  have hbyte := byte.toNat_lt
  rw [Charset.byteBelow, toNat_ofNat_of_scalar (by omega), if_pos h, UInt8.ofNat_toNat]

/-! ## All charsets -/

/-- **What was written is read.**  The bytes of a code point are read as the code point, or as the
question mark that was written in its place. -/
theorem read_encodeChar (charset : Charset) (c : Char) (rest : List UInt8) :
    read charset none (charset.encodeChar c ++ rest) =
      (read charset none rest).behind (charset.encodeChar c).length
        (some (charset.substitute c)) := by
  cases charset with
  | utf8 =>
    obtain ⟨first, tail, hbytes, hsequence⟩ := isSequence_utf8Bytes c
    have hfront : front .utf8 none first (tail ++ rest) = .unit tail.length (some c) none :=
      frontUtf8_of_isSequence hsequence none rest
    rw [Charset.encodeChar, hbytes, List.cons_append, read_of_unit hfront, List.drop_left]
    rfl
  | utf16be => exact read_utf16Units isByteOrder_bigEndian rfl c rest
  | utf16le => exact read_utf16Units isByteOrder_littleEndian rfl c rest
  | latin1 =>
    have hread : Char.ofNat (Charset.byteBelow 0x100 c).toNat = Charset.latin1.substitute c := by
      simp [ofNat_byteBelow, Charset.substitute, Charset.represents]
    have hfront : front .latin1 none (Charset.byteBelow 0x100 c) rest =
        .unit 0 (some (Charset.latin1.substitute c)) none := by
      rw [front, frontByte, if_pos rfl, hread]
    exact read_of_unit hfront
  | ascii =>
    have hread : Char.ofNat (Charset.byteBelow 0x80 c).toNat = Charset.ascii.substitute c := by
      simp [ofNat_byteBelow, Charset.substitute, Charset.represents]
    have hallowed : (Charset.byteBelow 0x80 c).toNat < 0x80 := by
      rw [toNat_byteBelow (by omega)]
      split <;> omega
    have hfront : front .ascii none (Charset.byteBelow 0x80 c) rest =
        .unit 0 (some (Charset.ascii.substitute c)) none := by
      rw [front, frontByte, if_pos (decide_eq_true hallowed), hread]
    exact read_of_unit hfront

/-- What a charset writes for a text is read as the text, and nothing is left. -/
theorem read_encode (charset : Charset) (text : Text) :
    read charset none (charset.encode text) =
      ⟨text.map charset.substitute, none, (charset.encode text).length, false⟩ := by
  induction text with
  | nil => rw [Charset.encode_nil, read]; rfl
  | cons c text ih =>
    rw [Charset.encode_cons, read_encodeChar, ih, Reading.behind, List.length_append]
    simp [Nat.add_comm]

/-- The bytes that a waiting surrogate came in. -/
def heldBytes (charset : Charset) (surrogate : Option Nat) : List UInt8 :=
  match charset with
  | .utf16be => surrogate.toList.flatMap Charset.bigEndianBytes
  | .utf16le => surrogate.toList.flatMap Charset.littleEndianBytes
  | _ => []

theorem heldBytes_none (charset : Charset) : heldBytes charset none = [] := by
  cases charset <;> rfl

theorem conserved_frontUtf16 {unitOf : UInt8 → UInt8 → Nat} {bytesOf : Nat → List UInt8}
    (horder : IsByteOrder unitOf bytesOf) {surrogate waiting : Option Nat} {first : UInt8}
    {rest : List UInt8} {further : Nat} {c? : Option Char}
    (h : frontUtf16 unitOf surrogate first rest = .unit further c? waiting)
    (hheld : ∀ high ∈ surrogate, isHighSurrogate high = true) :
    (c?.toList.flatMap fun c => (Charset.utf16Units c).flatMap bytesOf) ++
        waiting.toList.flatMap bytesOf =
      surrogate.toList.flatMap bytesOf ++ first :: rest.take further ∧
    ∀ high ∈ waiting, isHighSurrogate high = true := by
  cases rest with
  | nil => cases h
  | cons second rest =>
    obtain ⟨hunits, hwaiting⟩ := units_of_frontUnit h (horder.unit_lt first second) hheld
    refine ⟨?_, hwaiting⟩
    rw [← List.flatMap_assoc, ← List.flatMap_append, hunits, List.flatMap_append,
      List.flatMap_singleton, horder.bytes_of_unit, further_le_of_frontUnit h]
    rfl

/-- **What was read is written.**  A unit that was read is written by the bytes it was read from,
if a surrogate that waits stands for its bytes. -/
theorem conserved_front {charset : Charset} {surrogate waiting : Option Nat} {first : UInt8}
    {rest : List UInt8} {further : Nat} {c? : Option Char}
    (h : front charset surrogate first rest = .unit further c? waiting)
    (hheld : ∀ high ∈ surrogate, isHighSurrogate high = true) :
    charset.encode c?.toList ++ heldBytes charset waiting =
        heldBytes charset surrogate ++ first :: rest.take further ∧
      ∀ high ∈ waiting, isHighSurrogate high = true := by
  cases charset with
  | utf8 =>
    obtain ⟨c, rfl, rfl, hsequence⟩ := isSequence_of_frontUtf8 h
    refine ⟨?_, hheld⟩
    simp [heldBytes, Charset.encodeChar, utf8Bytes_of_isSequence hsequence]
  | utf16be => exact conserved_frontUtf16 isByteOrder_bigEndian h hheld
  | utf16le => exact conserved_frontUtf16 isByteOrder_littleEndian h hheld
  | latin1 =>
    have hbyte : Charset.byteBelow 0x100 (Char.ofNat first.toNat) = first :=
      byteBelow_ofNat first.toNat_lt
    rw [front, frontByte, if_pos rfl] at h
    cases h
    refine ⟨?_, hheld⟩
    simp [heldBytes, Charset.encodeChar, hbyte]
  | ascii =>
    rw [front, frontByte] at h
    split at h
    · next hallowed =>
      have hbyte : Charset.byteBelow 0x80 (Char.ofNat first.toNat) = first :=
        byteBelow_ofNat (of_decide_eq_true hallowed)
      cases h
      refine ⟨?_, hheld⟩
      simp [heldBytes, Charset.encodeChar, hbyte]
    · cases h

/-- **Nothing is lost by reading.**  The text, with the surrogate that waits, is written by the
bytes that were read, with the surrogate that waited before. -/
theorem conserved_read {charset : Charset} {surrogate : Option Nat} {bytes : List UInt8}
    (h : (read charset surrogate bytes).malformed = false)
    (hheld : ∀ high ∈ surrogate, isHighSurrogate high = true) :
    charset.encode (read charset surrogate bytes).text ++
        heldBytes charset (read charset surrogate bytes).surrogate =
      heldBytes charset surrogate ++ bytes.take (read charset surrogate bytes).reached := by
  induction surrogate, bytes using read.induct charset with
  | case1 surrogate => simp [read]
  | case2 surrogate first rest hfront => simp [read_of_incomplete hfront]
  | case3 surrogate first rest offset hfront =>
    rw [read_of_malformed hfront] at h
    cases h
  | case4 surrogate first rest further c? waiting hfront ih =>
    obtain ⟨hunit, hwaiting⟩ := conserved_front hfront hheld
    rw [read_of_unit hfront] at h ⊢
    have hrest := ih h hwaiting
    rw [Reading.text_behind, Reading.surrogate_behind, Reading.reached_behind,
      Charset.encode_append, List.append_assoc, hrest, ← List.append_assoc, hunit,
      List.append_assoc, List.cons_append, ← Nat.add_assoc, List.take_succ_cons, Nat.add_comm,
      List.take_add]

/-! ## Whole texts -/

/-- Nothing is pending exactly if every byte was read and no surrogate waits. -/
theorem pendingBytes_eq_zero_iff (d : Decoder) :
    d.pendingBytes = 0 ↔ d.staged = [] ∧ d.surrogate = none := by
  rw [pendingBytes, Nat.add_eq_zero_iff, List.length_eq_zero_iff]
  cases d.surrogate <;> simp

/-- A decoder that works, and has nothing pending. -/
structure Clear (d : Decoder) : Prop where
  works : d.poisoned = false
  pending : d.pendingBytes = 0

theorem clear_start (charset : Charset) : (start charset).Clear := ⟨rfl, rfl⟩

theorem Clear.reading_encode {d : Decoder} (h : d.Clear) (text : Text) :
    d.reading (d.charset.encode text) =
      ⟨text.map d.charset.substitute, none, (d.charset.encode text).length, false⟩ := by
  obtain ⟨hstaged, hsurrogate⟩ := d.pendingBytes_eq_zero_iff.mp h.pending
  rw [reading, hstaged, hsurrogate, List.nil_append, read_encode]

theorem Clear.atRest {d : Decoder} (h : d.Clear) : d.AtRest := by
  obtain ⟨hstaged, hsurrogate⟩ := d.pendingBytes_eq_zero_iff.mp h.pending
  refine ⟨h.works, ?_⟩
  rw [hstaged, hsurrogate, read]

/-- A text that was written is read again, and nothing is pending. -/
theorem Clear.decode_encode {d : Decoder} (h : d.Clear) (text : Text) :
    d.decode (d.charset.encode text) =
      ⟨{ d with consumed := d.consumed + (d.charset.encode text).length },
        text.map d.charset.substitute, none⟩ := by
  obtain ⟨hstaged, hsurrogate⟩ := d.pendingBytes_eq_zero_iff.mp h.pending
  have hreading := h.reading_encode text
  rw [decode_of_read h.works (by rw [hreading]), hreading, advance, hstaged, List.nil_append,
    List.drop_length, ← hsurrogate, ← hstaged]

/-- A text that was written in two parts is read as the whole, with the same decoder at the end. -/
theorem Clear.decode_encode_append {d : Decoder} (h : d.Clear) (a b : Text) :
    ∃ middle last : Decoder,
      d.decode (d.charset.encode a) = ⟨middle, a.map d.charset.substitute, none⟩ ∧
      middle.decode (d.charset.encode b) = ⟨last, b.map d.charset.substitute, none⟩ ∧
      d.decode (d.charset.encode (a ++ b)) =
        ⟨last, a.map d.charset.substitute ++ b.map d.charset.substitute, none⟩ := by
  have hmiddle : Clear { d with consumed := d.consumed + (d.charset.encode a).length } :=
    ⟨h.works, h.pending⟩
  refine ⟨_, _, h.decode_encode a, hmiddle.decode_encode b, ?_⟩
  rw [h.decode_encode, Charset.encode_append, List.length_append, List.map_append, Nat.add_assoc]

theorem decode_encode (charset : Charset) (text : Text) :
    (start charset).decode (charset.encode text) =
      ⟨{ start charset with consumed := (charset.encode text).length },
        text.map charset.substitute, none⟩ := by
  have hdecode := (clear_start charset).decode_encode text
  rwa [start, Nat.zero_add] at hdecode

/-- A stream that ends with nothing pending is written again, byte for byte, by its text. -/
theorem encode_text_of_decode {charset : Charset} {bytes : List UInt8}
    (h : ((start charset).decode bytes).error = none)
    (hpending : ((start charset).decode bytes).decoder.pendingBytes = 0) :
    charset.encode ((start charset).decode bytes).text = bytes := by
  obtain ⟨hd, hread⟩ := (error_decode_eq_none_iff (start charset) bytes).mp h
  rw [decode_of_read hd hread, pendingBytes_eq_zero_iff] at hpending
  have hgood : (read charset none bytes).malformed = false := hread
  have hstaged : bytes.drop (read charset none bytes).reached = [] := hpending.1
  have hsurrogate : (read charset none bytes).surrogate = none := hpending.2
  have hconserved := conserved_read hgood fun high hhigh => by cases hhigh
  rw [hsurrogate, heldBytes_none, List.append_nil, List.nil_append,
    List.take_of_length_le (List.drop_eq_nil_iff.mp hstaged)] at hconserved
  rw [decode_of_read hd hread]
  exact hconserved

/-- **Writing and reading are inverse to each other.**  A text that was written is read without an
error and with nothing pending, as the text with a question mark for each code point that the
charset lacks.  A stream of bytes that is read in this way is the one that its text is written
by. -/
theorem encode_decode_roundTrip (charset : Charset) :
    (∀ text : Text,
      let result := (start charset).decode (charset.encode text)
      result.error = none ∧ result.decoder.pendingBytes = 0 ∧
        result.text = text.map fun c => if charset.represents c then c else '?') ∧
    ∀ bytes : List UInt8,
      let result := (start charset).decode bytes
      result.error = none ∧ result.decoder.pendingBytes = 0 →
        charset.encode result.text = bytes := by
  constructor
  · intro text
    rw [decode_encode]
    exact ⟨rfl, rfl, rfl⟩
  · intro bytes result h
    exact encode_text_of_decode h.1 h.2

/-- Two surrogates in order are read, and written again. -/
theorem roundTrip_surrogatePair :
    let result := (start .utf16be).decode [0xD8, 0x3D, 0xDE, 0x00]
    (result.error = none ∧ result.decoder.pendingBytes = 0) ∧
      Charset.utf16be.encode result.text = [0xD8, 0x3D, 0xDE, 0x00] :=
  have hread : ((start .utf16be).decode [0xD8, 0x3D, 0xDE, 0x00]).error = none ∧
      ((start .utf16be).decode [0xD8, 0x3D, 0xDE, 0x00]).decoder.pendingBytes = 0 := by
    decide +kernel
  ⟨hread, (encode_decode_roundTrip .utf16be).2 [0xD8, 0x3D, 0xDE, 0x00] hread⟩

end Decoder

end PromptLine
