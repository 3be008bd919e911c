import Listfile.Byte
import Listfile.Source
import Listfile.Stream.Buffered

/-!
# Normalised streams

A stream as a source of bytes in which each carriage return before a newline is left out. A
carriage return at the end of what has been read is held back until the next byte shows whether it
stays.

Each chunk is asked for twice. The first request is patient with interruptions, and if it fails,
the source ends for good. The second gives the bytes that the first has found; if there were none,
it reads once more, and whatever goes wrong then is taken for no bytes.
-/

namespace Listfile

/-! ## One chunk -/

/-- What one chunk contributes. -/
structure Collapsed where
  /-- The bytes to hand out. -/
  written : List UInt8
  /-- The number of bytes of the chunk that are used up. -/
  used : Nat
  /-- Whether a carriage return is held back. -/
  held : Bool
deriving DecidableEq, Repr

namespace Collapsed

/-- One more byte handed out before the others. -/
def write (b : UInt8) (c : Collapsed) : Collapsed := { c with written := b :: c.written }

/-- One more byte used up. -/
def use (c : Collapsed) : Collapsed := { c with used := c.used + 1 }

end Collapsed

/-- Pass a chunk on, as far as there is room, given whether a carriage return is held back. A
newline takes the place of the carriage return before it; any other byte lets that one out first. -/
def collapse (held : Bool) (room : Nat) (chunk : List UInt8) : Collapsed :=
  match room, chunk with
  | 0, _ => ⟨[], 0, held⟩
  | _, [] => ⟨[], 0, held⟩
  | room + 1, b :: rest =>
    if held then
      if b = Byte.newline then (collapse false room rest).use.write Byte.newline
      else (collapse false room (b :: rest)).write Byte.carriageReturn
    else if b = Byte.carriageReturn then (collapse true (room + 1) rest).use
    else (collapse false room rest).use.write b
termination_by room + chunk.length

/-- No more bytes are handed out than there is room for. -/
theorem length_written_le (held : Bool) (room : Nat) (chunk : List UInt8) :
    (collapse held room chunk).written.length ≤ room := by
  fun_induction collapse held room chunk <;> simp_all [Collapsed.use, Collapsed.write]

/-- Every byte handed out comes from a byte used up or from the carriage return held back. -/
theorem length_written_add_le (held : Bool) (room : Nat) (chunk : List UInt8) :
    (collapse held room chunk).written.length + (collapse held room chunk).held.toNat ≤
      (collapse held room chunk).used + held.toNat := by
  fun_induction collapse held room chunk <;>
    simp_all [Collapsed.use, Collapsed.write] <;> omega

theorem used_le (held : Bool) (room : Nat) (chunk : List UInt8) :
    (collapse held room chunk).used ≤ chunk.length := by
  fun_induction collapse held room chunk <;> simp_all [Collapsed.use, Collapsed.write]

/-! ## The source -/

/-- A stream read with carriage returns before newlines left out. -/
structure Normalized where
  /-- The stream behind its buffer. -/
  input : Buffered
  /-- Whether a carriage return is held back. -/
  heldReturn : Bool
  /-- Whether a read has failed. -/
  failed : Bool
deriving DecidableEq, Repr

namespace Normalized

/-- The source of a stream, read `capacity` bytes at a time. -/
def ofStream (stream : Stream) (capacity : Nat) : Normalized :=
  ⟨Buffered.ofStream stream capacity, false, false⟩

/-- The next bytes of the stream, none at its end or after a failure. -/
def chunk (n : Normalized) : List UInt8 × Normalized :=
  if n.failed then ([], n)
  else
    match n.input.fetchPatiently with
    | (none, input) => ([], { n with input, failed := true })
    | (some _, input) =>
      match input.fetch with
      | (.bytes bytes, input) => (bytes, { n with input })
      | (_, input) => ([], { n with input })

/-- Hand out what one chunk contributes, or the carriage return held back at the end. -/
def round (n : Normalized) (room : Nat) : List UInt8 × Normalized :=
  match n.chunk with
  | ([], n) =>
    if n.heldReturn then ([Byte.carriageReturn], { n with heldReturn := false }) else ([], n)
  | (bytes, n) =>
    let c := collapse n.heldReturn room bytes
    (c.written, { n with input := n.input.consume c.used, heldReturn := c.held })

/-- The next bytes, as many as there is room for. A round that hands out nothing and has taken up a
carriage return is followed by a second one, which then hands out that or what takes its place. -/
def fill (n : Normalized) (room : Nat) : List UInt8 × Normalized :=
  if room = 0 then ([], n)
  else
    match n.round room with
    | ([], n) => if n.heldReturn then n.round room else ([], n)
    | answer => answer

/-! ## The laws of a source -/

/-- The number of bytes that can still be handed out. -/
def remaining (n : Normalized) : Nat :=
  n.input.ahead.length + n.heldReturn.toNat

theorem chunk_ahead (n : Normalized) : n.chunk.2.input.ahead = n.input.ahead := by
  unfold chunk
  split
  · rfl
  · have patient := n.input.ahead_fetchPatiently
    split
    · rename_i input hfetch
      simpa [hfetch] using patient
    · rename_i bytes input hfetch
      rw [hfetch] at patient
      have second := input.ahead_fetch
      split <;> rename_i hsecond <;> rw [hsecond] at second <;> exact second.trans patient

theorem chunk_heldReturn (n : Normalized) : n.chunk.2.heldReturn = n.heldReturn := by
  unfold chunk
  repeat' split
  all_goals rfl

theorem held_of_chunk {n n' : Normalized} {bytes : List UInt8} (h : n.chunk = (bytes, n'))
    (hne : bytes ≠ []) : n'.input.held = bytes := by
  unfold chunk at h
  split at h
  · cases h
    exact absurd rfl hne
  · split at h
    · cases h
      exact absurd rfl hne
    · split at h
      · rename_i hfetch
        cases h
        exact Buffered.held_of_fetch hfetch
      · cases h
        exact absurd rfl hne

theorem round_length_le (n : Normalized) {room : Nat} (hroom : 0 < room) :
    (n.round room).1.length ≤ room := by
  unfold round
  split
  · split
    · exact hroom
    · exact Nat.zero_le _
  · exact length_written_le _ _ _

theorem round_remaining (n : Normalized) (room : Nat) :
    (n.round room).1.length + (n.round room).2.remaining ≤ n.remaining := by
  have hahead := congrArg List.length n.chunk_ahead
  have hreturn := n.chunk_heldReturn
  unfold round
  split
  · rename_i n' hchunk
    have hsame : n'.remaining = n.remaining := by
      simp only [hchunk] at hahead hreturn
      simp only [remaining, hahead, hreturn]
    split
    · rename_i hheld
      rw [← hsame]
      simp only [remaining, hheld, List.length_singleton, Bool.toNat_true, Bool.toNat_false]
      omega
    · rw [List.length_nil, hsame]
      omega
  · rename_i bytes n' hne hchunk
    rw [hchunk] at hahead hreturn
    have hheld := held_of_chunk hchunk hne
    have hused := used_le n'.heldReturn room bytes
    have hwritten := length_written_add_le n'.heldReturn room bytes
    simp only [remaining, Buffered.ahead, Buffered.consume, List.length_append, List.length_drop,
      hheld] at hahead hreturn ⊢
    rw [← hreturn]
    omega

theorem fill_length_le (n : Normalized) (room : Nat) : (n.fill room).1.length ≤ room := by
  unfold fill
  split
  · exact Nat.zero_le _
  · have hroom : 0 < room := Nat.pos_of_ne_zero ‹_›
    split
    · split
      · exact round_length_le _ hroom
      · exact Nat.zero_le _
    · exact round_length_le n hroom

theorem fill_remaining (n : Normalized) (room : Nat) :
    (n.fill room).1.length + (n.fill room).2.remaining ≤ n.remaining := by
  unfold fill
  split
  · simp
  · have hfirst := n.round_remaining room
    split
    · rename_i n' hround
      rw [hround] at hfirst
      have hsecond := n'.round_remaining room
      split
      · simp only [List.length_nil] at hfirst
        omega
      · exact hfirst
    · exact hfirst

instance : Source Normalized where
  fill := fill
  length_fill_le := fill_length_le
  finite := Source.finite_of_measure fill remaining fun n room hne => by
    have hpos := List.length_pos_iff.2 hne
    have := n.fill_remaining room
    omega

end Normalized

end Listfile
