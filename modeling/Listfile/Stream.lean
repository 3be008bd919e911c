import Listfile.FileError

/-!
# Streams

A stream is a sequence of bytes that is read from a current position, which can be moved. How a
read or a move turns out is up to the system: a read may give fewer bytes than asked for, be
interrupted, or fail, and a move may fail. The outcomes to come are part of the stream, so that
everything that is said about streams holds for every system behind them.

Each call and its answer is kept (`Stream.calls`).
-/

namespace Listfile

/-- How a read turns out. -/
inductive ReadOutcome where
  /-- At most `n` bytes are read. -/
  | upTo (n : Nat)
  /-- The read is interrupted and can be tried again. -/
  | interrupted
  /-- The read fails. -/
  | failed (cause : FileError)
deriving DecidableEq, Repr

/-- The answer to a read. -/
inductive ReadAnswer where
  /-- The bytes read, none at the end of the data. -/
  | bytes (bytes : List UInt8)
  /-- The read was interrupted. -/
  | interrupted
  /-- The read failed. -/
  | failed (cause : FileError)
deriving DecidableEq, Repr

/-- A call made on a stream. -/
inductive StreamCall where
  /-- A read of up to `size` bytes. -/
  | read (size : Nat) (answer : ReadAnswer)
  /-- A move to an absolute position, and whether it succeeded. -/
  | seek (target : Nat) (moved : Bool)
deriving DecidableEq, Repr

/-- A stream of bytes with a position. -/
structure Stream where
  /-- All bytes of the stream. -/
  data : List UInt8
  /-- The number of bytes before the current position. -/
  position : Nat
  /-- The outcomes of the next reads. -/
  reads : List ReadOutcome
  /-- The failure of every read after those, if they fail. Otherwise they give all they are asked
  for. -/
  failure : Option FileError
  /-- Whether the next moves succeed. All later ones do. -/
  seeks : List Bool
  /-- The calls made so far, the latest first. -/
  calls : List StreamCall
deriving DecidableEq, Repr

namespace Stream

/-- A stream at its start on which every call succeeds. -/
def ofBytes (data : List UInt8) : Stream :=
  ⟨data, 0, [], none, [], []⟩

/-- A stream that can be moved in but not read from. -/
def unreadable (cause : FileError) : Stream :=
  ⟨[], 0, [], some cause, [], []⟩

/-- The bytes from the current position on. -/
def ahead (s : Stream) : List UInt8 :=
  s.data.drop s.position

/-- The outcome of the next read, if it asks for `size` bytes. -/
def nextOutcome (s : Stream) (size : Nat) : ReadOutcome :=
  match s.reads, s.failure with
  | outcome :: _, _ => outcome
  | [], some cause => .failed cause
  | [], none => .upTo size

/-- The answer to a read of up to `size` bytes. -/
def answer (s : Stream) (size : Nat) : ReadAnswer :=
  match s.nextOutcome size with
  | .upTo n => .bytes (s.ahead.take (min n size))
  | .interrupted => .interrupted
  | .failed cause => .failed cause

/-- Read up to `size` bytes. Only bytes that are read move the position. -/
def read (s : Stream) (size : Nat) : ReadAnswer × Stream :=
  let answer := s.answer size
  let count := match answer with
    | .bytes bytes => bytes.length
    | _ => 0
  (answer,
    { s with
      position := s.position + count
      reads := s.reads.tail
      calls := .read size answer :: s.calls })

/-- Move to an absolute position. A failed move leaves the position as it is. -/
def seek (s : Stream) (target : Nat) : Bool × Stream :=
  let moved := s.seeks.headD true
  (moved,
    { s with
      position := if moved then target else s.position
      seeks := s.seeks.tail
      calls := .seek target moved :: s.calls })

/-- An interrupted read takes one of the outcomes to come. -/
theorem reads_length_lt_of_interrupted {s s' : Stream} {size : Nat}
    (h : s.read size = (.interrupted, s')) : s'.reads.length < s.reads.length := by
  obtain ⟨hanswer, rfl⟩ := Prod.mk.inj h
  simp only [answer, nextOutcome] at hanswer
  cases hreads : s.reads with
  | nil =>
    rw [hreads] at hanswer
    cases hfailure : s.failure <;> simp [hfailure] at hanswer
  | cons _ rest => simp

/-- The bytes that a read gives are taken off the bytes ahead. -/
theorem ahead_eq_of_read {s s' : Stream} {size : Nat} {bytes : List UInt8}
    (h : s.read size = (.bytes bytes, s')) : s.ahead = bytes ++ s'.ahead := by
  obtain ⟨hanswer, rfl⟩ := Prod.mk.inj h
  simp only [hanswer]
  have hbytes : ∃ n, s.ahead.take n = bytes := by
    unfold answer at hanswer
    split at hanswer
    · exact ⟨_, ReadAnswer.bytes.inj hanswer⟩
    · cases hanswer
    · cases hanswer
  obtain ⟨n, rfl⟩ := hbytes
  simp only [ahead, ← List.drop_drop]
  exact List.prefix_iff_eq_append.1 (List.take_prefix n _) |>.symm

/-- A read that gives no bytes leaves the bytes ahead as they are. -/
theorem ahead_eq_of_read_ne {s s' : Stream} {size : Nat} {answer : ReadAnswer}
    (h : s.read size = (answer, s')) (hne : ∀ bytes, answer ≠ .bytes bytes) :
    s'.ahead = s.ahead := by
  obtain ⟨hanswer, rfl⟩ := Prod.mk.inj h
  cases answer with
  | bytes bytes => exact absurd rfl (hne bytes)
  | interrupted => simp [ahead, hanswer]
  | failed cause => simp [ahead, hanswer]

theorem reads_length_read_le (s : Stream) (size : Nat) :
    (s.read size).2.reads.length ≤ s.reads.length := by
  simp [read]

/-- Read all bytes ahead, trying again after interruptions, until a read gives none. -/
def readAll (s : Stream) : Except FileError (List UInt8) :=
  match h : s.read s.data.length with
  | (.bytes [], _) => .ok []
  | (.bytes (b :: more), s') =>
    have : s'.ahead.length < s.ahead.length := by
      simp only [ahead_eq_of_read h, List.length_append, List.length_cons]
      omega
    have : s'.reads.length ≤ s.reads.length := by
      simpa [h] using s.reads_length_read_le s.data.length
    (readAll s').map (b :: more ++ ·)
  | (.interrupted, s') =>
    have : s'.reads.length < s.reads.length := reads_length_lt_of_interrupted h
    have : s'.ahead.length = s.ahead.length := by rw [ahead_eq_of_read_ne h (by simp)]
    readAll s'
  | (.failed cause, _) => .error cause
termination_by s.ahead.length + s.reads.length

end Stream

end Listfile
