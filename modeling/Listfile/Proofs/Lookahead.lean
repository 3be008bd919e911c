import Listfile.Proofs.Chunking
import Listfile.Proofs.Positions
import Listfile.Proofs.Tokens

/-!
# Tokens depend on two bytes behind them at most

Each sort of token looks ahead in its own way: not at all behind a closing quote, one byte behind a
blank run, two where a backslash stands behind a word. Two is the most. So as long as a run stays two
bytes away from the end of `p`, it does not matter what follows `p` in the input
(`readingsN_eq_of_common_start`).

There is no need to go through the sorts of tokens again. How the bytes arrive does not show, so let
them arrive one by one. A scanner asks for more only if nothing is unread or a lone backslash is, so
then at most two bytes are unread at any time (`Window.Path.near`). What a scanner has not been given
cannot have influenced it: whatever can lie ahead of its window, the readings so far are those of the
bytes consumed with that rest behind them (`readings_of_ahead`).
-/

namespace Listfile

/-! ## The segments that are left -/

/-- The segments that are left after `n` readings of consecutive segments. -/
def Context.left (emitSpace : Bool) : Nat → Context → List Segment → List Segment
  | 0, _, segs => segs
  | n + 1, c, segs =>
    let r := c.nextToken emitSpace segs
    left emitSpace n r.2.1 r.2.2

/-- The bytes of an input that are left after `n` readings with the given choice about blanks. -/
def leftover (emitSpace : Bool) (n : Nat) (input : List UInt8) : List UInt8 :=
  (Context.start.left emitSpace n (segments input)).flatMap Segment.spelling

namespace Scanner

variable {σ : Type} [Source σ]

/-- Whatever can lie ahead after `n` calls, the readings are those of the bytes consumed and that
rest, and the segments left are those of the rest. -/
theorem readings_of_ahead (n : Nat) (s : Scanner σ) (d : Draft) :
    ∃ done, s.window.Path done (after n s d).1.window ∧
      ∀ rest, (after n s d).1.window.Ahead rest →
        s.context.readings s.emitSpace n (segments (done ++ rest)) = (readingsN n s d).1 ∧
        s.context.left s.emitSpace n (segments (done ++ rest)) = segments rest := by
  induction n generalizing s d with
  | zero => exact ⟨[], .stay _, fun rest _ => ⟨rfl, rfl⟩⟩
  | succ n ih =>
    obtain ⟨bytes, hpath, hemit, hnext⟩ := (next_scans s d).agrees
    obtain ⟨done, hmore, hlater⟩ := ih (next s d).1 (next s d).2
    refine ⟨bytes ++ done, hpath.trans hmore, ?_⟩
    intro rest hrest
    obtain ⟨hreadings, hleft⟩ := hlater rest hrest
    have hfirst := hnext (done ++ rest) (hmore.ahead hrest)
    rw [hemit] at hreadings hleft
    rw [List.append_assoc]
    constructor
    · simp only [Context.readings, readingsN, hfirst, hreadings]
      rfl
    · simp only [Context.left, hfirst, hleft]

/-- After `n` calls on a source the bytes that it supplies are those consumed and the leftover, which
can lie ahead. -/
theorem done_append_leftover {settings : Settings} {source : σ} {bytes : List UInt8}
    (h : Source.Supplies settings source bytes) (n : Nat) :
    ∃ done, (ofSource settings source).window.Path done
        (after n (ofSource settings source) Draft.empty).1.window ∧
      bytes = done ++ leftover settings.emitSpace n bytes ∧
      (after n (ofSource settings source) Draft.empty).1.window.Ahead
        (leftover settings.emitSpace n bytes) := by
  obtain ⟨done, rest, rfl, hpath, -, -, hrest⟩ := h.holds.after n
  obtain ⟨done', hpath', hahead⟩ := readings_of_ahead n (ofSource settings source) Draft.empty
  obtain rfl : done = done' := hpath.bytes_unique hpath'
  have hleft : leftover settings.emitSpace n (done ++ rest) = rest := by
    have hsegments := (hahead rest hrest.ahead).2
    rw [leftover]
    exact (congrArg _ hsegments).trans (flatMap_spelling_segments rest)
  rw [hleft]
  exact ⟨done, hpath, rfl, hrest.ahead⟩

/-- The number of bytes consumed after `n` calls and the leftover make up the input. -/
theorem taken_add_length_leftover {settings : Settings} {source : σ} {bytes : List UInt8}
    (h : Source.Supplies settings source bytes) (n : Nat) :
    (after n (ofSource settings source) Draft.empty).1.window.taken +
      (leftover settings.emitSpace n bytes).length = bytes.length := by
  obtain ⟨done, hpath, hbytes, -⟩ := done_append_leftover h n
  have htaken : (after n (ofSource settings source) Draft.empty).1.window.taken = 0 + done.length :=
    hpath.taken
  have hlength := congrArg List.length hbytes
  rw [List.length_append] at hlength
  omega

end Scanner

/-! ## Bytes that arrive one by one -/

/-- The source that hands out the given bytes one by one. -/
def Pieces.oneByOne (bytes : List UInt8) : Pieces :=
  ⟨bytes.map fun b => [b]⟩

/-- It delivers these bytes. -/
theorem Pieces.oneByOne_delivers (bytes : List UInt8) :
    Source.Delivers (Pieces.oneByOne bytes) bytes := by
  have hall : (Pieces.oneByOne bytes).bytes = bytes := by
    induction bytes with
    | nil => rfl
    | cons b bytes ih =>
      have hrest : ((bytes.map fun b => [b]).takeWhile fun piece => !piece.isEmpty).flatten =
          bytes := ih
      simp only [oneByOne, Pieces.bytes, List.map_cons, List.takeWhile_cons, List.isEmpty_cons,
        Bool.not_false, if_true, List.flatten_cons, hrest, List.singleton_append]
  have hdelivers := (Pieces.oneByOne bytes).delivers
  rwa [hall] at hdelivers

/-- A window on pieces of one byte each that holds two bytes at most, and at most one once the pieces
have run out. -/
structure Window.Near (w : Window Pieces) : Prop where
  /-- The pieces have one byte. -/
  pieces : ∀ piece ∈ w.source.rest, piece.length ≤ 1
  /-- At most two bytes are unread. -/
  unread : w.unread.length ≤ 2
  /-- At the end of the pieces at most one byte is unread. -/
  ended : w.exhausted = true → w.unread.length ≤ 1

/-- An answer from pieces of one byte has one byte at most, and what is left are such pieces. -/
theorem Pieces.fill_of_short {p : Pieces} (h : ∀ piece ∈ p.rest, piece.length ≤ 1) (room : Nat) :
    (p.fill room).1.length ≤ 1 ∧ ∀ piece ∈ (p.fill room).2.rest, piece.length ≤ 1 := by
  unfold fill
  split
  · exact ⟨Nat.zero_le _, h⟩
  · rename_i piece later hrest
    rw [hrest] at h
    have hpiece := h piece List.mem_cons_self
    split
    · exact ⟨hpiece, fun other hother => h other (List.mem_cons_of_mem _ hother)⟩
    · refine ⟨Nat.le_trans (List.length_take_le' _ _) hpiece, ?_⟩
      intro other hother
      rcases List.mem_cons.1 hother with rfl | hother
      · rw [List.length_drop]
        omega
      · exact h other (List.mem_cons_of_mem _ hother)

/-- A move keeps the window near: bytes are asked for only if at most a backslash is unread. -/
theorem Window.Move.near {w w' : Window Pieces} {bytes : List UInt8} (move : Move w bytes w')
    (h : w.Near) : w'.Near := by
  cases move with
  | refill hopen hunread =>
    obtain ⟨room, answer, -, hanswer, hrefill⟩ := refill_of_open hopen
    have hshort : answer.1.length ≤ 1 ∧ ∀ piece ∈ answer.2.rest, piece.length ≤ 1 := by
      rw [hanswer]
      exact Pieces.fill_of_short h.pieces room
    have hone : w.unread.length ≤ 1 := by
      rcases hunread with hunread | hunread <;> rw [hunread] <;> decide
    rw [hrefill]
    refine ⟨hshort.2, ?_, ?_⟩
    · simp only [List.length_append]
      omega
    · intro hempty
      have hnil : answer.1 = [] := List.isEmpty_iff.1 hempty
      simp only [hnil, List.append_nil]
      exact hone
  | take _ =>
    refine ⟨h.pieces, ?_, ?_⟩
    · exact Nat.le_trans (List.drop_sublist _ _).length_le h.unread
    · intro hended
      exact Nat.le_trans (List.drop_sublist _ _).length_le (h.ended hended)

/-- Along a path the window stays near. -/
theorem Window.Path.near {w w' : Window Pieces} {bytes : List UInt8} (path : Path w bytes w')
    (h : w.Near) : w'.Near := by
  induction path with
  | stay w => exact h
  | step move _ ih => exact ih (move.near h)

/-- The window on bytes that arrive one by one is near at the start. -/
theorem Pieces.oneByOne_near (bytes : List UInt8) (capacity : Nat) :
    (Window.ofSource (Pieces.oneByOne bytes) capacity).Near := by
  refine ⟨?_, Nat.zero_le _, fun _ => Nat.zero_le _⟩
  intro piece hpiece
  obtain ⟨b, -, rfl⟩ := List.mem_map.1 hpiece
  exact Nat.le_refl 1

/-- If a window is near and two bytes of `p` at least have not been consumed, then all that it has
been given is part of `p`, and any other continuation of `p` can lie ahead. -/
theorem Window.Near.ahead_of_common_start {w : Window Pieces} {p s₁ done rest : List UInt8}
    (s₂ : List UInt8) (h : w.Near) (hrest : w.Ahead rest) (hinput : p ++ s₁ = done ++ rest)
    (hfar : done.length + 2 ≤ p.length) :
    ∃ rest', p ++ s₂ = done ++ rest' ∧ w.Ahead rest' := by
  have hlength := congrArg List.length hinput
  simp only [List.length_append] at hlength
  -- At its end the window would hold the rest, which has one byte at most.
  have hopen : w.exhausted ≠ true := by
    intro hended
    have hone := h.ended hended
    rw [hrest.ended hended] at hlength
    omega
  have hgiven : done ++ w.unread <+: p := by
    have hwhole : done ++ w.unread <+: p ++ s₁ := by
      rw [hinput]
      exact (List.prefix_append_right_inj done).2 hrest.unread
    refine List.prefix_of_prefix_length_le hwhole (List.prefix_append p s₁) ?_
    rw [List.length_append]
    have htwo := h.unread
    omega
  obtain ⟨more, hmore⟩ := hgiven
  refine ⟨w.unread ++ (more ++ s₂), ?_, List.prefix_append _ _, fun hended => absurd hended hopen⟩
  rw [← hmore]
  simp only [List.append_assoc]

namespace Scanner

/-! ## Two inputs that begin alike -/

/-- If two bytes of `p` at least are left after `n` readings of `p ++ s₁`, then the first `n` readings
of `p ++ s₂` are the same, and what is left of it follows the same bytes. -/
theorem readings_of_common_start (emitSpace : Bool) (n : Nat) {p s₁ done : List UInt8}
    (s₂ : List UInt8) (hdone : p ++ s₁ = done ++ leftover emitSpace n (p ++ s₁))
    (hfar : done.length + 2 ≤ p.length) :
    Context.start.readings emitSpace n (segments (p ++ s₂)) =
        Context.start.readings emitSpace n (segments (p ++ s₁)) ∧
      p ++ s₂ = done ++ leftover emitSpace n (p ++ s₂) := by
  -- A scanner to which the bytes of the first input come one by one.
  have hsupplies :=
    (Pieces.oneByOne_delivers (p ++ s₁)).supplies ⟨emitSpace, Settings.defaultChunkSize⟩
  obtain ⟨done₁, hpath, hinput, hrest⟩ := done_append_leftover hsupplies n
  obtain rfl : done₁ = done := List.append_cancel_right (hinput.symm.trans hdone)
  have hnear := hpath.near (Pieces.oneByOne_near (p ++ s₁) _)
  obtain ⟨rest, hother, hahead⟩ := hnear.ahead_of_common_start s₂ hrest hinput hfar
  obtain ⟨done₂, hpath₂, hagrees⟩ := readings_of_ahead n
    (ofSource ⟨emitSpace, Settings.defaultChunkSize⟩ (Pieces.oneByOne (p ++ s₁))) Draft.empty
  obtain rfl : done₁ = done₂ := hpath.bytes_unique hpath₂
  have hfirst := (hagrees _ hrest).1
  obtain ⟨hsecond, hleft⟩ := hagrees _ hahead
  rw [← hinput] at hfirst
  rw [← hother] at hsecond hleft
  refine ⟨hsecond.trans hfirst.symm, ?_⟩
  have hleftover : leftover emitSpace n (p ++ s₂) = rest := by
    rw [leftover]
    exact (congrArg _ hleft).trans (flatMap_spelling_segments rest)
  rw [hleftover]
  exact hother

/-- Prefixes are stable: if two sources supply inputs that both begin with `p`, in whatever pieces and
for whatever chunk sizes, and the first `n` calls on the one leave two bytes of `p` at least, then the
first `n` calls on the other give the same readings and consume as many bytes. -/
theorem readingsN_eq_of_common_start {σ₁ σ₂ : Type} [Source σ₁] [Source σ₂]
    {settings₁ settings₂ : Settings} {source₁ : σ₁} {source₂ : σ₂} {p s₁ s₂ : List UInt8}
    (hemit : settings₁.emitSpace = settings₂.emitSpace)
    (h₁ : Source.Supplies settings₁ source₁ (p ++ s₁))
    (h₂ : Source.Supplies settings₂ source₂ (p ++ s₂)) (n : Nat)
    (hfar : (after n (ofSource settings₁ source₁) Draft.empty).1.window.taken + 2 ≤ p.length) :
    (readingsN n (ofSource settings₂ source₂) Draft.empty).1 =
        (readingsN n (ofSource settings₁ source₁) Draft.empty).1 ∧
      (after n (ofSource settings₂ source₂) Draft.empty).1.window.taken =
        (after n (ofSource settings₁ source₁) Draft.empty).1.window.taken := by
  obtain ⟨done, hpath, hdone, -⟩ := done_append_leftover h₁ n
  have htaken : (after n (ofSource settings₁ source₁) Draft.empty).1.window.taken =
      done.length := hpath.taken.trans (Nat.zero_add _)
  rw [htaken] at hfar ⊢
  obtain ⟨hreadings, hother⟩ := readings_of_common_start settings₁.emitSpace n s₂ hdone hfar
  constructor
  · rw [readingsN_eq h₁.holds, readingsN_eq h₂.holds]
    simp only [ofSource, ← hemit]
    exact hreadings
  · have hsum := taken_add_length_leftover h₂ n
    have hlength := (congrArg List.length hother).trans List.length_append
    rw [← hemit] at hsum
    omega

/-- A word before a backslash and a newline: these are the two bytes that it depends on. -/
theorem readingsN_eq_of_common_start_of_backslash :
    (after 1 (ofSource ⟨false, 0⟩ (⟨[0x61, Byte.backslash, Byte.newline]⟩ : Memory))
        Draft.empty).1.window.taken + 2 ≤ [0x61, Byte.backslash, Byte.newline].length ∧
      (readingsN 1 (ofSource ⟨false, 20⟩
          (⟨[[0x61, Byte.backslash], [Byte.newline, Byte.quote]]⟩ : Pieces)) Draft.empty).1 =
        (readingsN 1 (ofSource ⟨false, 0⟩ (⟨[0x61, Byte.backslash, Byte.newline]⟩ : Memory))
          Draft.empty).1 := by
  have hmemory : Source.Supplies ⟨false, 0⟩ (⟨[0x61, Byte.backslash, Byte.newline]⟩ : Memory)
      ([0x61, Byte.backslash, Byte.newline] ++ []) := (Memory.delivers _).supplies ⟨false, 0⟩
  have hpieces : Source.Supplies ⟨false, 20⟩
      (⟨[[0x61, Byte.backslash], [Byte.newline, Byte.quote]]⟩ : Pieces)
      ([0x61, Byte.backslash, Byte.newline] ++ [Byte.quote]) :=
    (Pieces.delivers _).supplies ⟨false, 20⟩
  have hleftover : (leftover false 1 ([0x61, Byte.backslash, Byte.newline] ++ [])).length = 2 := by
    decide +kernel
  have hsum := taken_add_length_leftover hmemory 1
  rw [hleftover] at hsum
  have hfar : (after 1 (ofSource ⟨false, 0⟩ (⟨[0x61, Byte.backslash, Byte.newline]⟩ : Memory))
      Draft.empty).1.window.taken + 2 ≤ [0x61, Byte.backslash, Byte.newline].length :=
    Nat.le_of_eq hsum
  exact ⟨hfar, (readingsN_eq_of_common_start (by rfl) hmemory hpieces 1 hfar).1⟩

-- One byte is not enough: whether a word goes on at a backslash shows in the byte after it.
example : Context.start.readings false 1 (segments [0x61, Byte.backslash, Byte.newline]) ≠
    Context.start.readings false 1 (segments [0x61, Byte.backslash, Byte.quote]) := by
  decide +kernel

end Scanner

end Listfile
