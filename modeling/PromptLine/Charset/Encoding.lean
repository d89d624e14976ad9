import PromptLine.Charset

/-!
# Writing text in a charset

One code point at a time: no charset here needs to know its neighbours.  The single-byte charsets
cannot represent every code point and write a question mark for what they lack.
-/

namespace PromptLine

/-! ## Surrogates -/

/-- The first 16-bit unit that is a high surrogate. -/
def highSurrogateBase : Nat := 0xD800

/-- The first 16-bit unit that is a low surrogate. -/
def lowSurrogateBase : Nat := 0xDC00

/-- Units that start a surrogate pair. -/
def isHighSurrogate (unit : Nat) : Bool :=
  0xD800 ≤ unit && unit ≤ 0xDBFF

/-- Units that end a surrogate pair. -/
def isLowSurrogate (unit : Nat) : Bool :=
  0xDC00 ≤ unit && unit ≤ 0xDFFF

namespace Charset

/-! ## One code point -/

/-- Between one and four bytes: six bits in each byte after the first. -/
def utf8Bytes (c : Char) : List UInt8 :=
  let n := c.toNat
  if n < 0x80 then [.ofNat n]
  else if n < 0x800 then [.ofNat (0xC0 + n / 64), .ofNat (0x80 + n % 64)]
  else if n < 0x10000 then
    [.ofNat (0xE0 + n / 4096), .ofNat (0x80 + n / 64 % 64), .ofNat (0x80 + n % 64)]
  else
    [.ofNat (0xF0 + n / 262144), .ofNat (0x80 + n / 4096 % 64), .ofNat (0x80 + n / 64 % 64),
      .ofNat (0x80 + n % 64)]

/-- One 16-bit unit, or a surrogate pair for a code point past the first 65536. -/
def utf16Units (c : Char) : List Nat :=
  let n := c.toNat
  if n < 0x10000 then [n]
  else [highSurrogateBase + (n - 0x10000) / 1024, lowSurrogateBase + (n - 0x10000) % 1024]

/-- The bytes of a 16-bit unit, the high one first. -/
def bigEndianBytes (unit : Nat) : List UInt8 := [.ofNat (unit / 256), .ofNat (unit % 256)]

/-- The bytes of a 16-bit unit, the low one first. -/
def littleEndianBytes (unit : Nat) : List UInt8 := [.ofNat (unit % 256), .ofNat (unit / 256)]

/-- What stands in for a code point the charset cannot represent: a question mark. -/
def questionMark : UInt8 := 0x3F

/-- The byte of a code point in a charset that has the first `count` of them. -/
def byteBelow (count : Nat) (c : Char) : UInt8 :=
  if c.toNat < count then .ofNat c.toNat else questionMark

/-- The bytes of one code point. -/
def encodeChar : Charset → Char → List UInt8
  | utf8, c => utf8Bytes c
  | utf16be, c => (utf16Units c).flatMap bigEndianBytes
  | utf16le, c => (utf16Units c).flatMap littleEndianBytes
  | latin1, c => [byteBelow 0x100 c]
  | ascii, c => [byteBelow 0x80 c]

/-- Whether the charset has bytes of its own for a code point. -/
def represents : Charset → Char → Bool
  | latin1, c => c.toNat < 0x100
  | ascii, c => c.toNat < 0x80
  | _, _ => true

/-! ## Whole texts -/

/-- The bytes of a text. -/
def encode (charset : Charset) (text : Text) : List UInt8 :=
  text.flatMap charset.encodeChar

@[simp] theorem encode_nil (charset : Charset) : charset.encode [] = [] := rfl

@[simp] theorem encode_cons (charset : Charset) (c : Char) (text : Text) :
    charset.encode (c :: text) = charset.encodeChar c ++ charset.encode text := rfl

@[simp] theorem encode_append (charset : Charset) (a b : Text) :
    charset.encode (a ++ b) = charset.encode a ++ charset.encode b := by
  simp [encode]

end Charset

end PromptLine
