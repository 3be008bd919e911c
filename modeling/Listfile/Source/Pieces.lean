import Listfile.Source

/-!
# Pieces

A source whose bytes come in pieces cut beforehand. Each request is answered from one piece. What
does not fit stays for the next request, and an empty piece answers one request with no bytes.
-/

namespace Listfile

/-- Bytes that arrive in given pieces. -/
structure Pieces where
  /-- The pieces not handed out yet, the first perhaps cut already. -/
  rest : List (List UInt8)
deriving DecidableEq, Repr

namespace Pieces

/-- As much of the first piece as there is room for. -/
def fill (p : Pieces) (room : Nat) : List UInt8 × Pieces :=
  match p.rest with
  | [] => ([], p)
  | piece :: later =>
    if piece.length ≤ room then (piece, ⟨later⟩)
    else (piece.take room, ⟨piece.drop room :: later⟩)

/-- The number of bytes not handed out yet. -/
def remaining (p : Pieces) : Nat := p.rest.flatten.length

theorem length_fill_le (p : Pieces) (room : Nat) : (p.fill room).1.length ≤ room := by
  unfold fill
  split
  · exact Nat.zero_le _
  · split
    · assumption
    · exact List.length_take_le _ _

/-- The bytes handed out and those left are the bytes held before. -/
theorem fill_append_rest (p : Pieces) (room : Nat) :
    (p.fill room).1 ++ (p.fill room).2.rest.flatten = p.rest.flatten := by
  unfold fill
  split
  · rfl
  · rename_i piece later h
    rw [h]
    split
    · rfl
    · simp only [List.flatten_cons, ← List.append_assoc, List.take_append_drop]

theorem remaining_fill_lt (p : Pieces) (room : Nat) (h : (p.fill room).1 ≠ []) :
    (p.fill room).2.remaining < p.remaining := by
  have hlen := congrArg List.length (p.fill_append_rest room)
  have hpos := List.length_pos_iff.2 h
  simp only [List.length_append] at hlen
  simp only [remaining]
  omega

instance : Source Pieces where
  fill := fill
  length_fill_le := length_fill_le
  finite := Source.finite_of_measure fill remaining remaining_fill_lt

end Pieces

end Listfile
