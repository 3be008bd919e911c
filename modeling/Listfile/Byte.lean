/-!
# Byte classes

A listfile is a sequence of bytes. This module names the bytes that mean something to the lexer and
the classes it sorts the others into: blanks, the bytes of a bare word, and the bytes of an
identifier. The classes are about bytes and not characters, so every byte from `0x80` on is an
ordinary byte of a bare word and no text encoding is assumed.
-/

namespace Listfile

namespace Byte

/-- Horizontal tab. -/
def tab : UInt8 := 0x09

/-- Line feed, the only line end. -/
def newline : UInt8 := 0x0A

/-- Carriage return. -/
def carriageReturn : UInt8 := 0x0D

/-- Space. -/
def space : UInt8 := 0x20

/-- The double quote around a quoted argument. -/
def quote : UInt8 := 0x22

/-- The hash that starts a comment. -/
def hash : UInt8 := 0x23

/-- The opening parenthesis. -/
def parenLeft : UInt8 := 0x28

/-- The closing parenthesis. -/
def parenRight : UInt8 := 0x29

/-- The equals sign, which sets the level of a bracket. -/
def equals : UInt8 := 0x3D

/-- The opening square bracket. -/
def bracketLeft : UInt8 := 0x5B

/-- The backslash, which escapes the byte after it. -/
def backslash : UInt8 := 0x5C

/-- The closing square bracket. -/
def bracketRight : UInt8 := 0x5D

/-- The underscore. -/
def underscore : UInt8 := 0x5F

/-- Spaces and tabs separate tokens and mean nothing else. -/
def isBlank (b : UInt8) : Bool :=
  b == space || b == tab

/-- Bytes with a role of their own, which end a bare word. -/
def isSpecial (b : UInt8) : Bool :=
  b == parenLeft || b == parenRight || b == hash || b == quote || b == backslash

/-- Bytes a bare word is made of: printable ASCII without the blank and the special bytes, and every
byte outside ASCII. -/
def isBare (b : UInt8) : Bool :=
  ((0x21 ≤ b && b ≤ 0x7E) || 0x80 ≤ b) && !isSpecial b

/-- ASCII letters and the underscore. -/
def isIdentifierStart (b : UInt8) : Bool :=
  (0x41 ≤ b && b ≤ 0x5A) || (0x61 ≤ b && b ≤ 0x7A) || b == underscore

/-- Bytes that may follow in an identifier: the starting ones and the ASCII digits. -/
def isIdentifierPart (b : UInt8) : Bool :=
  isIdentifierStart b || (0x30 ≤ b && b ≤ 0x39)

end Byte

/-- A word that can name a command: a letter or underscore, then letters, digits and underscores. -/
def isIdentifier : List UInt8 → Bool
  | [] => false
  | first :: rest => Byte.isIdentifierStart first && rest.all Byte.isIdentifierPart

end Listfile
