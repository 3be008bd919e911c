import Listfile.Position
import Listfile.Token.Kind

/-!
# Tokens

A token has a kind, the bytes of its text and the position where it starts. The kind of a bare word
depends on how many parentheses are open (`Kind.ofWord`): only outside all of them does a word name
a command.
-/

namespace Listfile

/-- One token of a listfile. -/
structure Token where
  /-- What the token is. -/
  kind : Kind
  /-- The bytes it carries, without quotes, brackets and line continuations. -/
  text : List UInt8
  /-- Where its first byte stands in the input. -/
  position : Position
deriving DecidableEq, Repr

instance : Inhabited Token := ⟨⟨.nothing, [], Position.start⟩⟩

/-- A bare word is an identifier if it can name a command and no parenthesis is open. -/
def Kind.ofWord (depth : Nat) (word : List UInt8) : Kind :=
  if depth = 0 && isIdentifier word then .identifier else .unquoted

/-- The greatest number of open parentheses that is told apart: the count is kept in 32 bits. -/
def depthLimit : Nat := 0xFFFFFFFF

/-- The number of open parentheses after a token of the given kind. A closing parenthesis without an
open one changes nothing. -/
def Kind.depthAfter (depth : Nat) : Kind → Nat
  | .parenLeft => min (depth + 1) depthLimit
  | .parenRight => depth - 1
  | _ => depth

end Listfile
