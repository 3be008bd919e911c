/-!
# Lossy UTF-8

Token text is bytes. For display it is read as UTF-8, and what is not UTF-8 is replaced: each
longest stretch of bytes that could still have become a character, or a single byte that could not,
turns into one replacement character.

The reader keeps at most one unfinished character (`Unfinished`). It knows the range of the next
byte, which rules out overlong forms, surrogates and everything past the last code point as early
as possible.
-/

namespace Listfile

namespace Text.Utf8

/-- The character that stands for undecodable bytes. -/
def replacement : Char := Char.ofNat 0xFFFD

/-- A character of which the first bytes have been read. -/
structure Unfinished where
  /-- The bits read so far. -/
  value : Nat
  /-- The number of bytes still to come, less one. -/
  after : Nat
  /-- The least next byte. -/
  low : UInt8
  /-- The greatest next byte. -/
  high : UInt8

/-- What a byte at the start of a character says. -/
inductive Lead where
  /-- The byte is a whole character. -/
  | whole (c : Char)
  /-- More bytes belong to the character. -/
  | more (u : Unfinished)
  /-- No character starts with this byte. -/
  | invalid

/-- Classify the first byte of a character. -/
def lead (b : UInt8) : Lead :=
  let n := b.toNat
  if b < 0x80 then .whole (Char.ofNat n)
  else if b < 0xC2 then .invalid
  else if b < 0xE0 then .more ⟨n - 0xC0, 0, 0x80, 0xBF⟩
  else if b = 0xE0 then .more ⟨n - 0xE0, 1, 0xA0, 0xBF⟩
  else if b = 0xED then .more ⟨n - 0xE0, 1, 0x80, 0x9F⟩
  else if b < 0xF0 then .more ⟨n - 0xE0, 1, 0x80, 0xBF⟩
  else if b = 0xF0 then .more ⟨n - 0xF0, 2, 0x90, 0xBF⟩
  else if b < 0xF4 then .more ⟨n - 0xF0, 2, 0x80, 0xBF⟩
  else if b = 0xF4 then .more ⟨n - 0xF0, 2, 0x80, 0x8F⟩
  else .invalid

/-- The bits of an unfinished character with those of one more byte. -/
def Unfinished.push (u : Unfinished) (b : UInt8) : Nat :=
  u.value * 64 + (b.toNat - 0x80)

/-- Read a byte that starts a character: the characters it completes, and the one it leaves
unfinished. -/
def begin (b : UInt8) : List Char × Option Unfinished :=
  match lead b with
  | .whole c => ([c], none)
  | .more u => ([], some u)
  | .invalid => ([replacement], none)

/-- Read a byte after an unfinished character, or after none. A byte that cannot go on ends the
unfinished character with a replacement and starts afresh. -/
def step : Option Unfinished → UInt8 → List Char × Option Unfinished
  | none, b => begin b
  | some u, b =>
    if u.low ≤ b && b ≤ u.high then
      match u.after with
      | 0 => ([Char.ofNat (u.push b)], none)
      | after + 1 => ([], some ⟨u.push b, after, 0x80, 0xBF⟩)
    else (replacement :: (begin b).1, (begin b).2)

/-- Decode after an unfinished character, or after none. -/
def decodeFrom : Option Unfinished → List UInt8 → List Char
  | none, [] => []
  | some _, [] => [replacement]
  | state, b :: rest => (step state b).1 ++ decodeFrom (step state b).2 rest

/-- The characters of a byte string, with replacements for what is not UTF-8. -/
def decode (bytes : List UInt8) : List Char :=
  decodeFrom none bytes

end Text.Utf8

end Listfile
