import Listfile.Bom
import Listfile.Stream

/-!
# Sniffing the byte-order mark

The first four bytes of a stream decide its mark. They are read in as many reads as it takes; then
the stream is moved to just after the mark, so that exactly the mark is skipped. If a read fails,
or the move does, the mark is broken.
-/

namespace Listfile

namespace Bom

/-- The number of bytes that decide the mark. -/
def headLength : Nat := 4

/-- Read on until `headLength` bytes are at hand, or a read gives none. Interrupted reads are tried
again; nothing is given if a read fails. -/
def readHead (s : Stream) (head : List UInt8) : Option (List UInt8) × Stream :=
  if hroom : head.length < headLength then
    match h : s.read (headLength - head.length) with
    | (.bytes [], s') => (some head, s')
    | (.bytes (b :: more), s') =>
      have : s'.reads.length ≤ s.reads.length := by
        simpa [h] using s.reads_length_read_le (headLength - head.length)
      readHead s' (head ++ b :: more)
    | (.interrupted, s') =>
      have : s'.reads.length < s.reads.length := Stream.reads_length_lt_of_interrupted h
      readHead s' head
    | (.failed _, s') => (none, s')
  else (some head, s)
termination_by headLength - head.length + s.reads.length
decreasing_by
  · simp only [List.length_append, List.length_cons]
    omega
  · omega

/-- Find the mark of a stream that stands at its start, and move to the byte after it. -/
def sniff (s : Stream) : Bom × Stream :=
  match readHead s [] with
  | (none, s) => (broken, (s.seek 0).2)
  | (some head, s) =>
    let mark := classify head
    match s.seek mark.length with
    | (true, s) => (mark, s)
    | (false, s) => (broken, s)

end Bom

end Listfile
