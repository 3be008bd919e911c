import Listfile.Byte

/-!
# Positions

Lines and columns count from one, and columns count bytes. Both stop at `Position.limit` and stay
there.

A position moves in two ways. A scanner moves it in bulk: a number of bytes to the right, or to the
start of the next line (`Position.right`, `Position.nextLine`). What it has to come to is given byte
by byte (`Position.advance`), so that moving over two stretches is moving over their concatenation.
The laws below say over which bytes a bulk move is the right one: `advance_eq_right` for a stretch
without newlines, and `advance_concat_newline` for one that ends with its only newline.
-/

namespace Listfile

/-- A line and a column in a listfile. -/
structure Position where
  /-- One more than the number of newlines passed, up to the limit. -/
  line : Nat
  /-- One more than the number of bytes passed on this line, up to the limit. -/
  column : Nat
deriving DecidableEq, Repr

namespace Position

/-- The greatest line and the greatest column: both are kept in 32 bits. -/
def limit : Nat := 0xFFFFFFFF

/-- The position of the first byte. -/
def start : Position := ⟨1, 1⟩

instance : Inhabited Position := ⟨start⟩

/-! ## Bulk moves -/

/-- The position `n` bytes further on the same line. -/
def right (p : Position) (n : Nat) : Position :=
  -- No bytes are no move, also where a column is past the limit.
  if n = 0 then p else ⟨p.line, min (p.column + n) limit⟩

/-- The start of the next line. -/
def nextLine (p : Position) : Position :=
  ⟨min (p.line + 1) limit, 1⟩

/-- A column up to the limit is added to and cut off at the limit. -/
theorem right_of_le {p : Position} (h : p.column ≤ limit) (n : Nat) :
    p.right n = ⟨p.line, min (p.column + n) limit⟩ := by
  unfold right
  split
  · rename_i hn
    rw [hn, Nat.add_zero, Nat.min_eq_left h]
  · rfl

/-- Two moves to the right are one. -/
theorem right_right (p : Position) (n m : Nat) : (p.right n).right m = p.right (n + m) := by
  unfold right
  by_cases hn : n = 0
  · rw [if_pos hn, hn, Nat.zero_add]
  · by_cases hm : m = 0
    · rw [if_pos hm, hm, Nat.add_zero]
    · rw [if_neg hn, if_neg hm, if_neg (by omega)]
      simp only [Position.mk.injEq, true_and]
      omega

/-- The next line does not depend on the column. -/
@[simp] theorem nextLine_right (p : Position) (n : Nat) : (p.right n).nextLine = p.nextLine := by
  unfold right
  split <;> rfl

/-! ## Byte by byte -/

/-- The position after one more byte: a newline begins the next line. -/
def step (p : Position) (b : UInt8) : Position :=
  if b = Byte.newline then ⟨min (p.line + 1) limit, 1⟩ else ⟨p.line, min (p.column + 1) limit⟩

/-- The position after the given bytes. -/
def advance (p : Position) (bytes : List UInt8) : Position :=
  bytes.foldl step p

@[simp] theorem advance_nil (p : Position) : p.advance [] = p := rfl

@[simp] theorem advance_cons (p : Position) (b : UInt8) (bytes : List UInt8) :
    p.advance (b :: bytes) = (p.step b).advance bytes := rfl

@[simp] theorem advance_append (p : Position) (xs ys : List UInt8) :
    p.advance (xs ++ ys) = (p.advance xs).advance ys := by
  simp [advance]

/-- Bytes without a newline move a position to the right by their number. -/
theorem advance_eq_right {bytes : List UInt8} (h : Byte.newline ∉ bytes) (p : Position) :
    p.advance bytes = p.right bytes.length := by
  induction bytes generalizing p with
  | nil => rfl
  | cons b bytes ih =>
    rw [List.mem_cons, not_or] at h
    have hstep : p.step b = p.right 1 := by rw [step, if_neg (Ne.symm h.1)]; rfl
    rw [advance_cons, hstep, ih h.2, right_right, List.length_cons, Nat.add_comm]

/-- A newline at the end of such bytes leads to the next line. -/
theorem advance_concat_newline {bytes : List UInt8} (h : Byte.newline ∉ bytes) (p : Position) :
    p.advance (bytes ++ [Byte.newline]) = p.nextLine := by
  rw [advance_append, advance_eq_right h, advance_cons, advance_nil, step, if_pos rfl]
  exact nextLine_right p bytes.length

end Position

end Listfile
