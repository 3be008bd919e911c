import Listfile.Byte
import Listfile.Window

/-!
# What scanning does to a window

A scanner touches its window in two ways only: it refills it when nothing is unread or when a lone
backslash is, and it consumes bytes that are held (`Window.Move`). A `Window.Path` is a sequence of
such moves together with the bytes consumed on the way. Everything that is said about windows in
the course of a scan is said about one move first and then about a path.

**The rest of the input.** A window cannot know what its source will still hand out. What it does
know is `Window.Ahead`: the rest of the input begins with the unread bytes, and once the source has
come to its end it is the unread bytes. A path from `w` to `w'` over `bytes` turns a possible rest at
`w'` into a possible rest at `w`, with `bytes` put in front (`Path.ahead`). Scanning is described
backwards in this way, so that nothing has to be assumed about the source.

The operations that scanners use are paths: `demand_one_path`, `demand_two_path`, `take_ok` and
`takeRun_ok`.
-/

namespace Listfile

/-- The bytes of a class at the front are a run of them if the byte after the run is not of the
class. -/
theorem takeWhile_append_of_stop {p : UInt8 → Bool} {run rest : List UInt8}
    (hrun : ∀ b ∈ run, p b = true) (hstop : ∀ b, rest.head? = some b → p b = false) :
    (run ++ rest).takeWhile p = run := by
  rw [List.takeWhile_append_of_pos hrun]
  cases rest with
  | nil => exact List.append_nil run
  | cons b rest =>
    rw [List.takeWhile_cons_of_neg (by rw [hstop b rfl]; exact Bool.false_ne_true),
      List.append_nil]

namespace Window

variable {σ : Type}

/-! ## The rest of the input -/

/-- As far as the window knows, the bytes from here on can be `rest`: they begin with the unread
bytes, and they are these if the source has come to its end. -/
structure Ahead (w : Window σ) (rest : List UInt8) : Prop where
  /-- The unread bytes come first. -/
  unread : w.unread <+: rest
  /-- At the end of the source nothing follows them. -/
  ended : w.exhausted = true → rest = w.unread

/-- The unread bytes alone are always a possible rest. -/
theorem ahead_unread (w : Window σ) : w.Ahead w.unread :=
  ⟨List.prefix_rfl, fun _ => rfl⟩

/-- The first `n` bytes ahead are unread, or the source has come to its end before them. -/
def Ready (w : Window σ) (n : Nat) : Prop :=
  n ≤ w.unread.length ∨ w.exhausted = true

/-- A byte that is unread is ready. -/
theorem ready_of_head {w : Window σ} {b : UInt8} (h : w.unread.head? = some b) : w.Ready 1 := by
  obtain ⟨later, hlater⟩ := List.head?_eq_some_iff.1 h
  left
  rw [hlater, List.length_cons]
  omega

/-- If the first `n` bytes are ready, then the unread bytes tell what each of them is. -/
theorem Ahead.getElem?_eq {w : Window σ} {rest : List UInt8} {n i : Nat} (h : w.Ahead rest)
    (hready : w.Ready n) (hi : i < n) : rest[i]? = w.unread[i]? := by
  rcases hready with hlen | hended
  · obtain ⟨later, rfl⟩ := h.unread
    rw [List.getElem?_append_left (by omega)]
  · rw [h.ended hended]

/-- If the next byte is ready, then the unread bytes tell what it is. -/
theorem Ahead.head?_eq {w : Window σ} {rest : List UInt8} (h : w.Ahead rest)
    (hready : w.Ready 1) : rest.head? = w.unread.head? := by
  rw [List.head?_eq_getElem?, List.head?_eq_getElem?]
  exact h.getElem?_eq hready Nat.one_pos

/-- If the next byte is ready and none is unread, then nothing lies ahead. -/
theorem Ahead.eq_nil {w : Window σ} {rest : List UInt8} (h : w.Ahead rest) (hready : w.Ready 1)
    (hnone : w.unread.head? = none) : rest = [] := by
  rw [← h.head?_eq hready] at hnone
  exact List.head?_eq_none_iff.1 hnone

/-- If the byte after a backslash is ready and there is none, then nothing lies ahead once the
backslash has been consumed. -/
theorem ahead_eq_nil_of_last {w w' : Window σ} {b : UInt8} (hready : w.Ready 2)
    (hhead : w.unread.head? = some b) (hnone : w.unread[1]? = none)
    (hunread : w'.unread = w.unread.tail) (hended : w'.exhausted = w.exhausted) :
    ∀ more, w'.Ahead more → more = [] := by
  intro more hmore
  obtain ⟨later, hlater⟩ := List.head?_eq_some_iff.1 hhead
  have hlen : w.unread.length ≤ 1 := List.getElem?_eq_none_iff.1 hnone
  have hnil : later = [] := by
    rw [hlater, List.length_cons] at hlen
    exact List.eq_nil_of_length_eq_zero (by omega)
  have hexhausted : w.exhausted = true := by
    rcases hready with h | h
    · omega
    · exact h
  rw [hmore.ended (by rw [hended, hexhausted]), hunread, hlater, List.tail_cons, hnil]

/-- Nothing is unread, and nothing more will come. -/
structure AtEnd (w : Window σ) : Prop where
  /-- No byte is unread. -/
  unread : w.unread = []
  /-- The source has come to its end. -/
  exhausted : w.exhausted = true

/-- Nothing lies ahead of a window at its end. -/
theorem AtEnd.eq_nil {w : Window σ} {rest : List UInt8} (h : w.AtEnd) (hrest : w.Ahead rest) :
    rest = [] := by
  rw [hrest.ended h.exhausted, h.unread]

variable [Source σ]

/-! ## Moves and paths -/

/-- One move of a window, with the bytes that it consumes. -/
inductive Move : Window σ → List UInt8 → Window σ → Prop where
  /-- The source is asked for bytes while it is open and at most a backslash is unread. -/
  | refill {w : Window σ} (hopen : w.exhausted = false)
      (hunread : w.unread = [] ∨ w.unread = [Byte.backslash]) : Move w [] w.refill
  /-- Bytes that are held are consumed. -/
  | take {w : Window σ} {n : Nat} (hn : n ≤ w.unread.length) :
      Move w (w.unread.take n) { w with unread := w.unread.drop n, taken := w.taken + n }

/-- Moves one after the other, with all the bytes that they consume. -/
inductive Path : Window σ → List UInt8 → Window σ → Prop where
  /-- No move at all. -/
  | stay (w : Window σ) : Path w [] w
  /-- One move and those after it. -/
  | step {w w₁ w' : Window σ} {bytes more : List UInt8} (move : Move w bytes w₁)
      (path : Path w₁ more w') : Path w (bytes ++ more) w'

/-- A single move is a path. -/
theorem Move.path {w w' : Window σ} {bytes : List UInt8} (move : Move w bytes w') :
    Path w bytes w' := by
  have path := Path.step move (Path.stay w')
  rwa [List.append_nil] at path

/-- Paths can be joined. -/
theorem Path.trans {w w₁ w' : Window σ} {bytes more : List UInt8} (first : Path w bytes w₁)
    (second : Path w₁ more w') : Path w (bytes ++ more) w' := by
  induction first with
  | stay w => exact second
  | step move _ ih =>
    rw [List.append_assoc]
    exact Path.step move (ih second)

/-- A refill adds the answer of the source to the unread bytes, and finds the end of the source if
there is no answer. -/
theorem refill_of_open {w : Window σ} (hopen : w.exhausted = false) :
    ∃ room answer, room = w.capacity - w.unread.length ∧ answer = Source.fill w.source room ∧
      w.refill = { w with
        source := answer.2
        unread := w.unread ++ answer.1
        exhausted := answer.1.isEmpty
        refills := ⟨w.taken, room, answer.1⟩ :: w.refills } := by
  refine ⟨_, _, rfl, rfl, ?_⟩
  simp only [refill, hopen, Bool.false_eq_true, if_false]

/-- What can lie ahead after a move could lie ahead before it, after the bytes consumed. -/
theorem Move.ahead {w w' : Window σ} {bytes rest : List UInt8} (move : Move w bytes w')
    (h : w'.Ahead rest) : w.Ahead (bytes ++ rest) := by
  cases move with
  | refill hopen _ =>
    obtain ⟨room, answer, -, -, hrefill⟩ := refill_of_open hopen
    refine ⟨?_, fun hended => ?_⟩
    · have hunread := h.unread
      rw [hrefill] at hunread
      exact (List.prefix_append _ _).trans hunread
    · rw [hopen] at hended
      exact absurd hended Bool.false_ne_true
  | take hn =>
    refine ⟨?_, fun hended => ?_⟩
    · obtain ⟨later, hlater⟩ := h.unread
      refine ⟨later, ?_⟩
      rw [← hlater, ← List.append_assoc, List.take_append_drop]
    · rw [h.ended hended, List.take_append_drop]

/-- What can lie ahead at the end of a path could lie ahead at its start, after the bytes consumed
on the way. -/
theorem Path.ahead {w w' : Window σ} {bytes rest : List UInt8} (path : Path w bytes w')
    (h : w'.Ahead rest) : w.Ahead (bytes ++ rest) := by
  induction path with
  | stay w => exact h
  | step move _ ih =>
    rw [List.append_assoc]
    exact move.ahead (ih h)

/-! ## The history of a path -/

/-- A move keeps the books: the bytes unread before and those handed out in its course are the bytes
consumed and those unread after. -/
theorem Move.delivered {w w' : Window σ} {bytes : List UInt8} (move : Move w bytes w') :
    ∃ fresh, w'.delivered = w.delivered ++ fresh ∧ w.unread ++ fresh = bytes ++ w'.unread := by
  cases move with
  | refill hopen _ =>
    obtain ⟨room, answer, -, -, hrefill⟩ := refill_of_open hopen
    refine ⟨answer.1, ?_, ?_⟩
    · simp only [hrefill, Window.delivered, List.reverse_cons, List.flatMap_append,
        List.flatMap_singleton]
    · rw [hrefill, List.nil_append]
  | take _ =>
    refine ⟨[], ?_, ?_⟩
    · rw [List.append_nil]
      rfl
    · rw [List.append_nil, List.take_append_drop]

/-- A path keeps the books: the bytes unread at its start and those handed out on the way are the
bytes consumed and those unread at its end. -/
theorem Path.delivered {w w' : Window σ} {bytes : List UInt8} (path : Path w bytes w') :
    ∃ fresh, w'.delivered = w.delivered ++ fresh ∧ w.unread ++ fresh = bytes ++ w'.unread := by
  induction path with
  | stay w =>
    refine ⟨[], ?_, ?_⟩
    · rw [List.append_nil]
    · rw [List.append_nil, List.nil_append]
  | step move _ ih =>
    obtain ⟨fresh, hdelivered, hunread⟩ := move.delivered
    obtain ⟨later, hdelivered', hunread'⟩ := ih
    refine ⟨fresh ++ later, ?_, ?_⟩
    · rw [hdelivered', hdelivered, List.append_assoc]
    · rw [← List.append_assoc, hunread, List.append_assoc, hunread', List.append_assoc]

/-- The two ends of a path determine the bytes consumed on the way. -/
theorem Path.bytes_unique {w w' : Window σ} {bytes bytes' : List UInt8} (path : Path w bytes w')
    (path' : Path w bytes' w') : bytes = bytes' := by
  obtain ⟨fresh, hdelivered, hunread⟩ := path.delivered
  obtain ⟨fresh', hdelivered', hunread'⟩ := path'.delivered
  have hfresh : fresh = fresh' := by
    rw [hdelivered] at hdelivered'
    exact List.append_cancel_left hdelivered'
  rw [hfresh, hunread'] at hunread
  exact (List.append_cancel_right hunread).symm

/-- A move counts the bytes that it consumes. -/
theorem Move.taken {w w' : Window σ} {bytes : List UInt8} (move : Move w bytes w') :
    w'.taken = w.taken + bytes.length := by
  cases move with
  | refill hopen _ =>
    obtain ⟨room, answer, -, -, hrefill⟩ := refill_of_open hopen
    rw [hrefill]
    rfl
  | take hn =>
    rw [List.length_take, Nat.min_eq_left hn]

/-- The number of bytes consumed so far grows by those consumed on the way. -/
theorem Path.taken {w w' : Window σ} {bytes : List UInt8} (path : Path w bytes w') :
    w'.taken = w.taken + bytes.length := by
  induction path with
  | stay w => rfl
  | step move _ ih => rw [ih, move.taken, List.length_append, Nat.add_assoc]

/-- Once the source has come to its end, it is left alone, and what has been handed out stays what
it is. -/
theorem Path.of_exhausted {w w' : Window σ} {bytes : List UInt8} (path : Path w bytes w')
    (h : w.exhausted = true) : w'.exhausted = true ∧ w'.delivered = w.delivered := by
  induction path with
  | stay w => exact ⟨h, rfl⟩
  | step move _ ih =>
    cases move with
    | refill hopen _ =>
      rw [h] at hopen
      cases hopen
    | take _ => exact ih h

/-- A path from the end consumes nothing and stays there. -/
theorem Path.of_atEnd {w w' : Window σ} {bytes : List UInt8} (path : Path w bytes w')
    (h : w.AtEnd) : bytes = [] ∧ w'.AtEnd := by
  have hnil := h.eq_nil (path.ahead w'.ahead_unread)
  obtain ⟨hbytes, hunread⟩ := List.append_eq_nil_iff.1 hnil
  exact ⟨hbytes, hunread, (path.of_exhausted h.exhausted).1⟩

/-! ## The operations of a scanner as paths -/

/-- A refill is a path that consumes nothing, if at most a backslash is unread. After the end of the
source it is no move at all. -/
theorem refill_path {w : Window σ} (hunread : w.unread = [] ∨ w.unread = [Byte.backslash]) :
    Path w [] w.refill := by
  cases hended : w.exhausted with
  | false => exact (Move.refill hended hunread).path
  | true =>
    have hsame : w.refill = w := by simp only [refill, hended, if_true]
    rw [hsame]
    exact Path.stay w

/-- Asking for the next byte is a path that consumes nothing. -/
theorem demand_one_path (w : Window σ) : Path w [] (w.demand 1) := by
  unfold demand
  split
  · rename_i hlen
    exact refill_path (.inl (List.eq_nil_of_length_eq_zero (by omega)))
  · exact Path.stay w

/-- Asking for the byte after a backslash is a path that consumes nothing. -/
theorem demand_two_path {w : Window σ} (hhead : w.unread.head? = some Byte.backslash) :
    Path w [] (w.demand 2) := by
  unfold demand
  split
  · rename_i hlen
    obtain ⟨later, hlater⟩ := List.head?_eq_some_iff.1 hhead
    have hnil : later = [] := by
      rw [hlater, List.length_cons] at hlen
      exact List.eq_nil_of_length_eq_zero (by omega)
    rw [hnil] at hlater
    exact refill_path (.inr hlater)
  · exact Path.stay w

/-- One refill is enough where all but one of the bytes are held: it brings a byte or finds the end
of the source. -/
theorem demand_ready {w : Window σ} {n : Nat} (hn : n ≤ w.unread.length + 1) :
    (w.demand n).Ready n := by
  unfold demand
  split
  · cases hended : w.exhausted with
    | false =>
      obtain ⟨room, answer, -, -, hrefill⟩ := refill_of_open hended
      rw [hrefill]
      cases hanswer : answer.1 with
      | nil => exact .inr rfl
      | cons b more =>
        left
        simp only [List.length_append, List.length_cons]
        omega
    | true =>
      right
      simp only [refill, hended, if_true]
  · exact .inl (by omega)

/-- Consuming bytes that are held succeeds and is a path over them. -/
theorem take_ok {w : Window σ} {n : Nat} (hn : n ≤ w.unread.length) :
    ∃ w', w.take n = .ok (w.unread.take n, w') ∧ Path w (w.unread.take n) w' ∧
      w'.unread = w.unread.drop n ∧ w'.exhausted = w.exhausted := by
  refine ⟨{ w with unread := w.unread.drop n, taken := w.taken + n }, ?_, ?_, rfl, rfl⟩
  · exact take_eq_ok.2 ⟨hn, rfl, rfl⟩
  · exact (Move.take hn).path

/-- What the longest run of one class is, seen from the window after it: all its bytes are of the
class, and the byte after it is ready and is not. -/
structure Run (p : UInt8 → Bool) (w : Window σ) (run : List UInt8) (w' : Window σ) : Prop where
  /-- Exactly the run is consumed. -/
  path : Path w run w'
  /-- Its bytes are of the class. -/
  all : ∀ b ∈ run, p b = true
  /-- The next byte is ready. -/
  ready : w'.Ready 1
  /-- The next byte is not of the class. -/
  stop : ∀ b, w'.unread.head? = some b → p b = false

/-- The bytes of the class at the front of the unread ones are a path, and the byte after them is
not of the class. -/
theorem take_takeWhile_ok (p : UInt8 → Bool) (w : Window σ) :
    ∃ w', w.take (w.unread.takeWhile p).length = .ok (w.unread.takeWhile p, w') ∧
      Path w (w.unread.takeWhile p) w' ∧ w'.exhausted = w.exhausted ∧
      w'.unread = w.unread.dropWhile p := by
  have hlen : (w.unread.takeWhile p).length ≤ w.unread.length :=
    (List.takeWhile_prefix p).length_le
  have htake : w.unread.take (w.unread.takeWhile p).length = w.unread.takeWhile p :=
    (List.prefix_iff_eq_take.1 (List.takeWhile_prefix p)).symm
  have hdrop : w.unread.drop (w.unread.takeWhile p).length = w.unread.dropWhile p := by
    have hleft : (w.unread.takeWhile p ++ w.unread.dropWhile p).drop
        (w.unread.takeWhile p).length = w.unread.dropWhile p := List.drop_left
    rwa [List.takeWhile_append_dropWhile] at hleft
  obtain ⟨w', hok, hpath, hunread, hended⟩ := take_ok hlen
  rw [htake] at hok hpath
  rw [hdrop] at hunread
  exact ⟨w', hok, hpath, hended, hunread⟩

/-- Consuming the longest run of one class succeeds, over as many refills as it takes. -/
theorem takeRun_ok (p : UInt8 → Bool) (w : Window σ) :
    ∃ run w', w.takeRun p = .ok (run, w') ∧ Run p w run w' := by
  -- The recursion of `takeRun` is along windows that come after each other.
  induction w using (step_wf (σ := σ)).transGen.induction with
  | _ w ih =>
  obtain ⟨w₁, hok, hpath, hended, hunread⟩ := take_takeWhile_ok p (w.demand 1)
  have hpath₁ : Path w ((w.demand 1).unread.takeWhile p) w₁ := (demand_one_path w).trans hpath
  have hready : (w.demand 1).Ready 1 := demand_ready (by omega)
  rw [takeRun_eq, hok]
  have hall : ∀ b ∈ (w.demand 1).unread.takeWhile p, p b = true := by
    intro b hb
    exact List.all_eq_true.1 List.all_takeWhile b hb
  by_cases hagain : (w.demand 1).unread.takeWhile p ≠ [] ∧ w₁.unread = []
  · have hafter : After w₁ w :=
      (take_takeWhile_after hok hagain.1).trans_reached (demand_reached w 1)
    obtain ⟨more, w', hmore, hrun⟩ := ih w₁ hafter
    refine ⟨(w.demand 1).unread.takeWhile p ++ more, w', ?_, ?_⟩
    · simp only [if_pos hagain, hmore]
    · refine ⟨hpath₁.trans hrun.path, ?_, hrun.ready, hrun.stop⟩
      intro b hb
      rcases List.mem_append.1 hb with hb | hb
      · exact hall b hb
      · exact hrun.all b hb
  · refine ⟨(w.demand 1).unread.takeWhile p, w₁, ?_, hpath₁, hall, ?_, ?_⟩
    · simp only [if_neg hagain]
    · -- Either the run stopped at a byte, or nothing was held at all and the source has ended.
      rcases hready with hlen | hend
      · refine .inl (List.length_pos_iff.2 fun hnil => hagain ⟨fun hrun => ?_, hnil⟩)
        have hsplit := List.takeWhile_append_dropWhile (p := p) (l := (w.demand 1).unread)
        rw [hrun, ← hunread, hnil] at hsplit
        rw [← hsplit] at hlen
        exact absurd hlen (by decide)
      · exact .inr (by rw [hended, hend])
    · intro b hb
      rw [hunread] at hb
      have hnot := List.head?_dropWhile_not p (w.demand 1).unread
      rw [hb] at hnot
      simpa using hnot

end Window

end Listfile
