import Listfile.Text.Extending
import Listfile.Text.Unprintable

/-!
# Escaped text

How text is shown between double quotes on one line. A few characters have an escape of two
characters; unprintable ones, and an extending one at the start, are given by their code point; all
others stand for themselves.
-/

namespace Listfile

namespace Text

/-- The letter after the backslash, for the characters that have a short escape. -/
def shortEscape? (c : Char) : Option Char :=
  if c = '\x00' then some '0'
  else if c = '\t' then some 't'
  else if c = '\r' then some 'r'
  else if c = '\n' then some 'n'
  else if c = '\'' then some '\''
  else if c = '"' then some '"'
  else if c = '\\' then some '\\'
  else none

/-- A character by its code point, in lowercase hexadecimal digits between braces. -/
def codePointEscape (c : Char) : List Char :=
  ['\\', 'u', '\x7b'] ++ Nat.toDigits 16 c.toNat ++ ['\x7d']

/-- A character as it is shown, at the start of the text or later in it. -/
def escapeChar (atStart : Bool) (c : Char) : List Char :=
  match shortEscape? c with
  | some letter => ['\\', letter]
  | none =>
    if (atStart && isExtending c) || isUnprintable c then codePointEscape c else [c]

/-- A text as it is shown. -/
def escape : List Char → List Char
  | [] => []
  | c :: rest => escapeChar true c ++ rest.flatMap (escapeChar false)

end Text

end Listfile
