import Listfile.Segment
import Listfile.Settings

/-!
# Tokens of a listfile

The tokens of an input are those of its segments, each at the position that the spellings before it
lead to and, for bare words, with the kind that the parentheses before it call for. Blank runs are
tokens only on request.

`tokenize` is the whole lexer in one function: bytes in, tokens out.
-/

namespace Listfile

/-- What the segments read so far leave behind: where the next one starts, and how many parentheses
are open. -/
structure Context where
  /-- The position of the next byte. -/
  position : Position
  /-- The number of open parentheses. -/
  depth : Nat
deriving DecidableEq, Repr

namespace Context

/-- The context at the start of the input. -/
def start : Context := ⟨Position.start, 0⟩

instance : Inhabited Context := ⟨start⟩

/-- The context after one more segment. -/
def next (c : Context) (s : Segment) : Context where
  position := c.position.advance s.spelling
  depth := match s.kind? c.depth with
    | some k => k.depthAfter c.depth
    | none => c.depth

/-- The token that a segment gives in this context, if it gives one. -/
def token? (c : Context) (emitSpace : Bool) (s : Segment) : Option Token :=
  match s.kind? c.depth with
  | some k => if k = .space && !emitSpace then none else some ⟨k, s.text, c.position⟩
  | none => none

end Context

/-- The tokens of consecutive segments. -/
def tokensOf (emitSpace : Bool) : Context → List Segment → List Token
  | _, [] => []
  | c, s :: rest => (c.token? emitSpace s).toList ++ tokensOf emitSpace (c.next s) rest

/-- The context that consecutive segments lead to. -/
def Context.after (c : Context) (ss : List Segment) : Context :=
  ss.foldl next c

/-- The tokens of an input, with blank runs left out. -/
def tokenize (input : List UInt8) : List Token :=
  tokensOf Settings.default.emitSpace Context.start (segments input)

end Listfile
