import Listfile.Source.Memory
import Listfile.Source.Normalized

/-!
# Feeds

What a session reads from: bytes in memory, as they are, or a stream with its line ends normalised.
-/

namespace Listfile

/-- A source of one of the two sorts that sessions use. -/
inductive Feed where
  /-- Bytes in memory. -/
  | memory (m : Memory)
  /-- A normalised stream. -/
  | stream (n : Normalized)
deriving DecidableEq, Repr

namespace Feed

/-- The next bytes of the source, whichever sort it is. -/
def fill : Feed → Nat → List UInt8 × Feed
  | memory m, room =>
    let answer := m.fill room
    (answer.1, memory answer.2)
  | stream n, room =>
    let answer := n.fill room
    (answer.1, stream answer.2)

/-- The number of bytes that can still be handed out. -/
def remaining : Feed → Nat
  | memory m => m.remaining
  | stream n => n.remaining

theorem length_fill_le (f : Feed) (room : Nat) : (f.fill room).1.length ≤ room := by
  cases f with
  | memory m => exact m.length_fill_le room
  | stream n => exact n.fill_length_le room

theorem remaining_fill_lt (f : Feed) (room : Nat) (h : (f.fill room).1 ≠ []) :
    (f.fill room).2.remaining < f.remaining := by
  cases f with
  | memory m => exact m.remaining_fill_lt room h
  | stream n =>
    have hpos := List.length_pos_iff.2 h
    have hle := n.fill_remaining room
    simp only [fill, remaining] at hpos ⊢
    omega

instance : Source Feed where
  fill := fill
  length_fill_le := length_fill_le
  finite := Source.finite_of_measure fill remaining remaining_fill_lt

end Feed

end Listfile
