import Listfile.Scanner

/-!
# Scanning quoted arguments

Inside quotes every byte is text, except for the closing quote and for line continuations: a
backslash right before a newline, which is dropped together with that newline. A backslash before
any other byte stays, and so does that byte, even if it is a quote. A backslash at the very end of
the input is text.

A round takes the bytes at the front that are text whatever follows them and stay on the line, and
then what stops them. A newline is text like these, but it moves the position to the next line.
-/

namespace Listfile.Scanner

variable {σ : Type}

/-- Bytes inside quotes that are text whatever follows them and stay on the line. -/
def isPlainInQuotes (b : UInt8) : Bool :=
  b != Byte.quote && b != Byte.backslash && b != Byte.newline

/-- What a byte that is not plain does to a quoted argument: it closes it, begins a line, or is a
backslash. -/
def quotedStop [Source σ] (stop : UInt8) (s : Scanner σ) (d : Draft) :
    Except Violation (Round (Scanner σ) Draft) := do
  if stop = Byte.quote then
    let (_, s) ← s.take 1
    return .done (s.right 1) (d.finish .quoted)
  else if stop = Byte.newline then
    let (newline, s) ← s.take 1
    return .again s.nextLine (d.append newline)
  else
    let (escaped, s) := s.peek 1
    match escaped with
    | none =>
      let (backslash, s) ← s.take 1
      return .again (s.right 1) (d.append backslash)
    | some c =>
      let (pair, s) ← s.take 2
      return if c = Byte.newline then .again s.nextLine d else .again (s.right 2) (d.append pair)

/-- The plain bytes at the front, and what stops them. Where nothing is left, the argument is not
closed. -/
def quotedRound [Source σ] (s : Scanner σ) (d : Draft) :
    Except Violation (Round (Scanner σ) Draft) := do
  let (run, stop, s) := s.front isPlainInQuotes
  match stop with
  | none =>
    if run = [] then return .done s (d.finish .badString)
    else
      let (_, s) ← s.take run.length
      return .again (s.right run.length) (d.append run)
  | some stop =>
    let (_, s) ← s.take run.length
    quotedStop stop (s.right run.length) (d.append run)

theorem quotedStop_follows [Source σ] {stop : UInt8} {s : Scanner σ} {d : Draft}
    {r : Round (Scanner σ) Draft} (h : quotedStop stop s d = .ok r) : r.Follows s := by
  unfold quotedStop at h
  split at h
  · simp only [bind_eq_ok, Prod.exists] at h
    obtain ⟨_, s₁, htake, h⟩ := h
    have reached := take_reached htake
    cases h
    exact reached
  split at h
  · simp only [bind_eq_ok, Prod.exists] at h
    obtain ⟨_, s₁, htake, h⟩ := h
    have after := take_after Nat.one_pos htake
    cases h
    exact after
  dsimp only at h
  split at h
  · simp only [bind_eq_ok, Prod.exists] at h
    obtain ⟨_, s₁, htake, h⟩ := h
    cases h
    exact (take_after Nat.one_pos htake).trans_reached (s.peek_reached 1)
  · simp only [bind_eq_ok, Prod.exists] at h
    obtain ⟨_, s₁, htake, h⟩ := h
    have after := (take_after Nat.two_pos htake).trans_reached (s.peek_reached 1)
    split at h <;> cases h <;> exact after

theorem quotedRound_advances [Source σ] : Advances (@quotedRound σ _) := by
  refine ⟨fun {s d r} h => ?_⟩
  have ahead := s.front_reached isPlainInQuotes
  simp only [quotedRound] at h
  split at h
  · split at h
    · cases h
      exact ahead
    · rename_i hrun
      simp only [bind_eq_ok, Prod.exists] at h
      obtain ⟨_, s₁, htake, h⟩ := h
      cases h
      exact (take_length_after hrun htake).trans_reached ahead
  · simp only [bind_eq_ok, Prod.exists] at h
    obtain ⟨_, s₁, htake, h⟩ := h
    exact (quotedStop_follows h).trans_reached ((take_reached htake).trans ahead)

/-- The rest of a quoted argument whose opening quote has been consumed. -/
def quoted [Source σ] (s : Scanner σ) (d : Draft) : Except Violation (Scanner σ × Draft) :=
  repeatUntilDone quotedRound quotedRound_advances.progresses s d

theorem quoted_reached [Source σ] {s s' : Scanner σ} {d d' : Draft}
    (h : quoted s d = .ok (s', d')) : s'.window.Reached s.window :=
  quotedRound_advances.reached h

end Listfile.Scanner
