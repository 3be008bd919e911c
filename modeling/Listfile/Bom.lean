/-!
# Byte-order marks

A byte-order mark is a fixed sequence of bytes at the very start of a file. It tells the encoding
and is no part of the content.
-/

namespace Listfile

/-- The byte-order mark of a stream. -/
inductive Bom where
  /-- There is none. -/
  | absent
  /-- The mark of UTF-8. -/
  | utf8
  /-- The mark of UTF-16 with the high byte first. -/
  | utf16be
  /-- The mark of UTF-16 with the low byte first. -/
  | utf16le
  /-- The mark of UTF-32 with the high byte first. -/
  | utf32be
  /-- The mark of UTF-32 with the low byte first. -/
  | utf32le
  /-- The start of the stream could not be read. -/
  | broken
deriving DecidableEq, Repr, Inhabited

namespace Bom

/-- The bytes of a mark. -/
def marker : Bom → List UInt8
  | absent => []
  | utf8 => [0xEF, 0xBB, 0xBF]
  | utf16be => [0xFE, 0xFF]
  | utf16le => [0xFF, 0xFE]
  | utf32be => [0x00, 0x00, 0xFE, 0xFF]
  | utf32le => [0xFF, 0xFE, 0x00, 0x00]
  | broken => []

/-- The number of bytes of a mark. -/
def length (b : Bom) : Nat := b.marker.length

/-- Whether a mark has no bytes. -/
def isEmpty (b : Bom) : Bool := b.length == 0

/-- The name shown for a mark. -/
def name : Bom → String
  | absent => "none"
  | utf8 => "UTF-8"
  | utf16be => "UTF-16BE"
  | utf16le => "UTF-16LE"
  | utf32be => "UTF-32BE"
  | utf32le => "UTF-32LE"
  | broken => "broken"

/-- The marks in the order in which they are looked for. The long mark that begins with the bytes of
a short one comes before it. -/
def candidates : List Bom :=
  [utf8, utf16be, utf32be, utf32le, utf16le]

/-- The mark that the given bytes start with. -/
def classify (head : List UInt8) : Bom :=
  (candidates.find? fun b => b.marker.isPrefixOf head).getD absent

end Bom

end Listfile
