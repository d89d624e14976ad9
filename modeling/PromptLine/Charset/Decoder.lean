import PromptLine.Charset.Encoding

/-!
# Reading text from bytes as they arrive

A transport cuts its byte stream wherever it likes: inside a character, between the halves of a
surrogate pair.  The decoder therefore keeps the bytes it cannot finish yet and reads them again in
front of the next chunk.  Reading takes one unit after another from the front of what is there, and
what stands at the front is told by its own bytes alone.

A byte that cannot be valid stops the decoder for good.  What such a byte is told apart by is
known at different moments: a wrong first or continuation byte is refused when it arrives, at its
own offset, while a value that is out of range shows only when its last byte is there, and is
reported at the offset of its first.
-/

namespace PromptLine

/-- Why bytes were not decoded. -/
inductive DecodeError
  /-- The bytes are not valid in the charset; the offset counts from the start of the stream. -/
  | malformed (charset : Charset) (offset : Nat)
  /-- An earlier call found malformed input. -/
  | poisoned
  deriving DecidableEq, Repr

/-- A decoder between two bytes. -/
structure Decoder where
  charset : Charset
  /-- How many bytes belong to units that are complete. -/
  consumed : Nat
  /-- The bytes of the unit that is not complete yet. -/
  staged : List UInt8
  /-- A high surrogate that waits for its low half. -/
  surrogate : Option Nat
  /-- Set by malformed input, and never cleared. -/
  poisoned : Bool
  deriving DecidableEq, Repr

/-- What one call hands back: the decoder afterwards, the text read, and the error that stopped
it, if one did.  Text read before the error is kept. -/
structure Decoded where
  decoder : Decoder
  text : Text
  error : Option DecodeError
  deriving DecidableEq, Repr

namespace Decoder

/-- A decoder at the start of a stream. -/
def start (charset : Charset) : Decoder := ⟨charset, 0, [], none, false⟩

/-- How many bytes wait for the rest of their character.  A waiting surrogate counts as the two
bytes it came in. -/
def pendingBytes (d : Decoder) : Nat :=
  d.staged.length + if d.surrogate.isSome then 2 else 0

/-- The decoder after malformed input: nothing waits any more. -/
def poison (d : Decoder) : Decoder :=
  { d with staged := [], surrogate := none, poisoned := true }

/-! ## Values of complete units -/

/-- How many bytes a sequence has, told by its first byte.  A continuation byte starts no
sequence, and neither does a byte that begins with five ones. -/
def utf8Length? (first : UInt8) : Option Nat :=
  let n := first.toNat
  if n < 0x80 then some 1
  else if n < 0xC0 then none
  else if n < 0xE0 then some 2
  else if n < 0xF0 then some 3
  else if n < 0xF8 then some 4
  else none

/-- A byte of the form `10xxxxxx`. -/
def isContinuation (byte : UInt8) : Bool :=
  0x80 ≤ byte.toNat && byte.toNat < 0xC0

/-- The data bits of a complete sequence. -/
def utf8Value : List UInt8 → Nat
  | [a] => a.toNat
  | [a, b] => a.toNat % 32 * 64 + b.toNat % 64
  | [a, b, c] => a.toNat % 16 * 4096 + b.toNat % 64 * 64 + c.toNat % 64
  | [a, b, c, d] =>
    a.toNat % 8 * 262144 + b.toNat % 64 * 4096 + c.toNat % 64 * 64 + d.toNat % 64
  | _ => 0x110000

/-- The least value that needs a sequence of a given length: below it the form is overlong. -/
def utf8Least : Nat → Nat
  | 2 => 0x80
  | 3 => 0x800
  | 4 => 0x10000
  | _ => 0

/-- The code point of a number, unless it is a surrogate or too large. -/
def scalar? (n : Nat) : Option Char :=
  if n < 0xD800 ∨ (0xDFFF < n ∧ n < 0x110000) then some (Char.ofNat n) else none

/-! ## One unit -/

/-- What stands at the front of bytes that are to be read. -/
inductive Front
  /-- The beginning of a unit. -/
  | incomplete
  /-- Nothing that can become a unit.  The byte to blame is so many bytes behind the first. -/
  | malformed (offset : Nat)
  /-- A unit of one byte and `further` more, with the code point that it completes, if it does, and
  the surrogate that waits after it. -/
  | unit (further : Nat) (c? : Option Char) (surrogate : Option Nat)
  deriving DecidableEq, Repr

/-- UTF-8: a sequence is read when all of its bytes are there, but a byte that does not continue it
is refused at once. -/
def frontUtf8 (surrogate : Option Nat) (first : UInt8) (rest : List UInt8) : Front :=
  match utf8Length? first with
  | none => .malformed 0
  | some size =>
    let tail := rest.take (size - 1)
    match tail.findIdx? fun byte => !isContinuation byte with
    | some i => .malformed (i + 1)
    | none =>
      if tail.length < size - 1 then .incomplete
      else if utf8Value (first :: tail) < utf8Least size then .malformed 0
      else
        match scalar? (utf8Value (first :: tail)) with
        | none => .malformed 0
        | some c => .unit (size - 1) (some c) surrogate

/-- The code point of a surrogate pair. -/
def ofSurrogates (high low : Nat) : Char :=
  Char.ofNat (0x10000 + (high - highSurrogateBase) * 1024 + (low - lowSurrogateBase))

/-- A 16-bit unit, with the high surrogate that waits for it. -/
def frontUnit (surrogate : Option Nat) (unit : Nat) : Front :=
  match surrogate with
  | some high =>
    if isLowSurrogate unit then .unit 1 (some (ofSurrogates high unit)) none else .malformed 0
  | none =>
    if isHighSurrogate unit then .unit 1 none (some unit)
    else if isLowSurrogate unit then .malformed 0
    else .unit 1 (some (Char.ofNat unit)) none

/-- The unit of two bytes, the high one first. -/
def bigEndian (high low : UInt8) : Nat := high.toNat * 256 + low.toNat

/-- The unit of two bytes, the low one first. -/
def littleEndian (low high : UInt8) : Nat := bigEndian high low

/-- UTF-16: `unitOf` puts the two bytes of a unit together. -/
def frontUtf16 (unitOf : UInt8 → UInt8 → Nat) (surrogate : Option Nat) (first : UInt8)
    (rest : List UInt8) : Front :=
  match rest with
  | [] => .incomplete
  | second :: _ => frontUnit surrogate (unitOf first second)

/-- Charsets in which a byte is a code point, if it is allowed at all. -/
def frontByte (allowed : UInt8 → Bool) (surrogate : Option Nat) (first : UInt8) : Front :=
  if allowed first then .unit 0 (some (Char.ofNat first.toNat)) surrogate else .malformed 0

/-- What stands at the front of `first :: rest`. -/
def front (charset : Charset) (surrogate : Option Nat) (first : UInt8) (rest : List UInt8) :
    Front :=
  match charset with
  | .utf8 => frontUtf8 surrogate first rest
  | .utf16be => frontUtf16 bigEndian surrogate first rest
  | .utf16le => frontUtf16 littleEndian surrogate first rest
  | .latin1 => frontByte (fun _ => true) surrogate first
  | .ascii => frontByte (fun byte => byte.toNat < 0x80) surrogate first

/-! ## Many units -/

/-- What reading has come to. -/
structure Reading where
  text : Text
  /-- The surrogate that waits at the end. -/
  surrogate : Option Nat
  /-- The offset that was reached: of the first byte that is left, or of the byte to blame. -/
  reached : Nat
  malformed : Bool
  deriving DecidableEq, Repr

/-- The reading with a unit in front of it. -/
def Reading.behind (r : Reading) (size : Nat) (c? : Option Char) : Reading :=
  { r with text := c?.toList ++ r.text, reached := r.reached + size }

/-- Unit after unit, up to the first that is incomplete or malformed. -/
def read (charset : Charset) (surrogate : Option Nat) (bytes : List UInt8) : Reading :=
  match bytes with
  | [] => ⟨[], surrogate, 0, false⟩
  | first :: rest =>
    match front charset surrogate first rest with
    | .incomplete => ⟨[], surrogate, 0, false⟩
    | .malformed offset => ⟨[], surrogate, offset, true⟩
    | .unit further c? surrogate =>
      (read charset surrogate (rest.drop further)).behind (further + 1) c?
termination_by bytes.length
decreasing_by exact Nat.lt_succ_of_le (List.length_drop ▸ Nat.sub_le ..)

/-- The decoder after a reading of bytes that found nothing malformed. -/
def advance (d : Decoder) (bytes : List UInt8) (r : Reading) : Decoder :=
  { d with
    consumed := d.consumed + r.reached
    staged := bytes.drop r.reached
    surrogate := r.surrogate }

/-- Decodes a chunk: what was staged is read again with the chunk behind it.  A poisoned decoder
refuses every chunk, the empty one included. -/
def decode (d : Decoder) (bytes : List UInt8) : Decoded :=
  if d.poisoned then ⟨d, [], some .poisoned⟩
  else
    let staged := d.staged ++ bytes
    let r := read d.charset d.surrogate staged
    if r.malformed then ⟨d.poison, r.text, some (.malformed d.charset (d.consumed + r.reached))⟩
    else ⟨d.advance staged r, r.text, none⟩

@[simp] theorem Reading.reached_behind (r : Reading) (size : Nat) (c? : Option Char) :
    (r.behind size c?).reached = r.reached + size := rfl

@[simp] theorem Reading.malformed_behind (r : Reading) (size : Nat) (c? : Option Char) :
    (r.behind size c?).malformed = r.malformed := rfl

@[simp] theorem Reading.surrogate_behind (r : Reading) (size : Nat) (c? : Option Char) :
    (r.behind size c?).surrogate = r.surrogate := rfl

@[simp] theorem Reading.text_behind (r : Reading) (size : Nat) (c? : Option Char) :
    (r.behind size c?).text = c?.toList ++ r.text := rfl

@[simp] theorem pendingBytes_start (charset : Charset) : (start charset).pendingBytes = 0 := rfl

end Decoder

end PromptLine
