import Listfile.Token
import Listfile.Violation

/-!
# Drafts

A draft is a token under construction together with the storage its text is kept in. The storage is
reused from token to token. It grows when a text does not fit, to exactly what is needed, or to one
byte more when a whole text is put in at once, and it never shrinks.

The text is read through `Draft.text`; each operation has one lemma that gives its effect on it.
-/

namespace Listfile

/-- A token under construction. -/
structure Draft where
  /-- The kind given last. -/
  kind : Kind
  /-- The bytes of the text so far. -/
  body : Array UInt8
  /-- Where the token starts. -/
  position : Position
  /-- The number of bytes the storage has room for. -/
  capacity : Nat
deriving DecidableEq, Repr

namespace Draft

/-- A draft that has no storage yet. -/
def empty : Draft := ⟨.nothing, #[], Position.start, 0⟩

instance : Inhabited Draft := ⟨empty⟩

/-- The text so far. -/
def text (d : Draft) : List UInt8 := d.body.toList

/-- The token as it stands. -/
def token (d : Draft) : Token := ⟨d.kind, d.text, d.position⟩

/-- Begin a token at the given position, with no text. The kind stays until `finish` gives another
one. -/
def start (d : Draft) (p : Position) : Draft :=
  { d with body := #[], position := p }

/-- Put the given bytes in place of the text. If they fill the storage or do not fit, new storage is
taken with one byte to spare. -/
def set (d : Draft) (bytes : List UInt8) : Draft :=
  { d with
    body := bytes.toArray
    capacity := if d.capacity ≤ bytes.length then bytes.length + 1 else d.capacity }

/-- Put the given bytes after the text. If they do not fit, the storage grows to the new length. -/
def append (d : Draft) (bytes : List UInt8) : Draft :=
  let needed := d.body.size + bytes.length
  { d with
    body := d.body ++ bytes
    capacity := max d.capacity needed }

/-- Take the last `n` bytes off the text, or all of it if it is shorter. -/
def dropLast (d : Draft) (n : Nat) : Draft :=
  { d with body := d.body.take (d.body.size - n) }

/-- Take the last `n` bytes off a text that has as many. -/
def strip (d : Draft) (n : Nat) : Except Violation Draft :=
  if n ≤ d.body.size then .ok (d.dropLast n) else .error .beyondText

/-- Give the token its kind. -/
def finish (d : Draft) (k : Kind) : Draft :=
  { d with kind := k }

@[simp] theorem text_empty : empty.text = [] := rfl

@[simp] theorem text_start (d : Draft) (p : Position) : (d.start p).text = [] := rfl

@[simp] theorem text_set (d : Draft) (bytes : List UInt8) : (d.set bytes).text = bytes := rfl

@[simp] theorem text_append (d : Draft) (bytes : List UInt8) :
    (d.append bytes).text = d.text ++ bytes := by
  simp [append, text]

@[simp] theorem text_dropLast (d : Draft) (n : Nat) :
    (d.dropLast n).text = d.text.take (d.text.length - n) := by
  simp [dropLast, text]

@[simp] theorem text_finish (d : Draft) (k : Kind) : (d.finish k).text = d.text := rfl

@[simp] theorem kind_finish (d : Draft) (k : Kind) : (d.finish k).kind = k := rfl

@[simp] theorem position_start (d : Draft) (p : Position) : (d.start p).position = p := rfl

@[simp] theorem position_set (d : Draft) (bytes : List UInt8) :
    (d.set bytes).position = d.position := rfl

@[simp] theorem position_append (d : Draft) (bytes : List UInt8) :
    (d.append bytes).position = d.position := rfl

@[simp] theorem position_dropLast (d : Draft) (n : Nat) :
    (d.dropLast n).position = d.position := rfl

@[simp] theorem position_finish (d : Draft) (k : Kind) : (d.finish k).position = d.position := rfl

end Draft

end Listfile
