import Listfile.Source

/-!
# Memory

The source whose bytes are all at hand. It fills the room as far as its bytes go.
-/

namespace Listfile

/-- Bytes held in memory. -/
structure Memory where
  /-- The bytes not handed out yet. -/
  rest : List UInt8
deriving DecidableEq, Repr

namespace Memory

/-- As many bytes as there is room for. -/
def fill (m : Memory) (room : Nat) : List UInt8 × Memory :=
  (m.rest.take room, ⟨m.rest.drop room⟩)

/-- The number of bytes not handed out yet. -/
def remaining (m : Memory) : Nat := m.rest.length

theorem length_fill_le (m : Memory) (room : Nat) : (m.fill room).1.length ≤ room :=
  List.length_take_le room m.rest

/-- The bytes handed out and those left are the bytes held before. -/
theorem fill_append_rest (m : Memory) (room : Nat) :
    (m.fill room).1 ++ (m.fill room).2.rest = m.rest :=
  List.take_append_drop room m.rest

theorem remaining_fill_lt (m : Memory) (room : Nat) (h : (m.fill room).1 ≠ []) :
    (m.fill room).2.remaining < m.remaining := by
  have hlen := congrArg List.length (m.fill_append_rest room)
  have hpos := List.length_pos_iff.2 h
  simp only [List.length_append] at hlen
  simp only [remaining]
  omega

instance : Source Memory where
  fill := fill
  length_fill_le := length_fill_le
  finite := Source.finite_of_measure fill remaining remaining_fill_lt

end Memory

end Listfile
