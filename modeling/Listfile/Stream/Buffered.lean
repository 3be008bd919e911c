import Listfile.Stream

/-!
# Buffered streams

A buffer in front of a stream holds what one read has given until it has been consumed. Only when
it holds nothing does a further request read again, and then exactly once.
-/

namespace Listfile

/-- A stream behind a buffer. -/
structure Buffered where
  /-- The stream. -/
  stream : Stream
  /-- The number of bytes each read asks for. -/
  capacity : Nat
  /-- The bytes read and not consumed yet. -/
  held : List UInt8
deriving DecidableEq, Repr

namespace Buffered

/-- A buffer that holds nothing yet. -/
def ofStream (stream : Stream) (capacity : Nat) : Buffered :=
  ⟨stream, capacity, []⟩

/-- The bytes not consumed yet: those held, and those ahead in the stream. -/
def ahead (b : Buffered) : List UInt8 :=
  b.held ++ b.stream.ahead

/-- The bytes held, or those of one read if none are. -/
def fetch (b : Buffered) : ReadAnswer × Buffered :=
  match b.held with
  | _ :: _ => (.bytes b.held, b)
  | [] =>
    match b.stream.read b.capacity with
    | (.bytes bytes, stream) => (.bytes bytes, { b with stream, held := bytes })
    | (answer, stream) => (answer, { b with stream })

/-- Let go of the first `n` bytes held. -/
def consume (b : Buffered) (n : Nat) : Buffered :=
  { b with held := b.held.drop n }

theorem reads_length_lt_of_fetch {b b' : Buffered} (h : b.fetch = (.interrupted, b')) :
    b'.stream.reads.length < b.stream.reads.length := by
  unfold fetch at h
  split at h
  · simp at h
  · split at h
    · simp at h
    · rename_i stream hread
      simp only [Prod.mk.injEq] at h
      obtain ⟨rfl, rfl⟩ := h
      exact Stream.reads_length_lt_of_interrupted hread

/-- Fetch, trying again after each interruption. Nothing is given if a read fails. -/
def fetchPatiently (b : Buffered) : Option (List UInt8) × Buffered :=
  match h : b.fetch with
  | (.bytes bytes, b') => (some bytes, b')
  | (.interrupted, b') =>
    have : b'.stream.reads.length < b.stream.reads.length := reads_length_lt_of_fetch h
    fetchPatiently b'
  | (.failed _, b') => (none, b')
termination_by b.stream.reads.length

/-- Fetching consumes nothing. -/
theorem ahead_fetch (b : Buffered) : b.fetch.2.ahead = b.ahead := by
  unfold fetch
  split
  · rfl
  · rename_i hheld
    split
    · rename_i bytes stream hread
      simp [ahead, hheld, Stream.ahead_eq_of_read hread]
    · rename_i answer stream hne hread
      simp only [ahead, hheld, Stream.ahead_eq_of_read_ne hread hne]

/-- The bytes fetched are those that are held afterwards. -/
theorem held_of_fetch {b b' : Buffered} {bytes : List UInt8} (h : b.fetch = (.bytes bytes, b')) :
    b'.held = bytes := by
  unfold fetch at h
  split at h
  · cases h
    rfl
  · split at h
    · cases h
      rfl
    · rename_i answer stream hne hread
      simp only [Prod.mk.injEq] at h
      exact absurd h.1 (hne bytes)

theorem ahead_fetchPatiently (b : Buffered) : b.fetchPatiently.2.ahead = b.ahead := by
  fun_induction fetchPatiently b with
  | case1 b bytes b' h => rw [← ahead_fetch b, h]
  | case2 b b' h _ ih => rw [ih, ← ahead_fetch b, h]
  | case3 b cause b' h => rw [← ahead_fetch b, h]

end Buffered

end Listfile
