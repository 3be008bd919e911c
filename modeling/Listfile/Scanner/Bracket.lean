import Listfile.Scanner

/-!
# Scanning brackets

A bracket of level `n` is opened by `n` equals signs between two opening brackets and closed by as
many between two closing ones. Whether an opener stands ahead shows only after its equals signs
have been consumed, so they are put on the draft and taken off again if it does (`openBracket`). In
the same way a possible closer is put on the draft as it is read (`bracketCandidate`), and a complete
one is taken off after the body has come to its end (`closeBracket`).

The position is moved behind the equals signs in one move, when all of them have been consumed.
-/

namespace Listfile.Scanner

variable {σ : Type}

/-! ## Openers -/

/-- Consume an opening bracket, the equals signs after it and, if it is there, the second opening
bracket. The level is given for a complete opener, which leaves the draft as it was. Otherwise what
was consumed stays on the draft. -/
def openBracket [Source σ] (s : Scanner σ) (d : Draft) :
    Except Violation (Option Nat × Scanner σ × Draft) := do
  let (next, s) := s.peek 0
  if next ≠ some Byte.bracketLeft then throw .notAtBracket
  let (bracket, s) ← s.take 1
  let (signs, s) ← s.takeRun (· == Byte.equals)
  let d := (d.append bracket).append signs
  let s := s.right (1 + signs.length)
  if s.window.unread.head? = some Byte.bracketLeft then
    let (_, s) ← s.take 1
    let d ← d.strip (1 + signs.length)
    return (some signs.length, s.right 1, d)
  else
    return (none, s, d)

theorem openBracket_after [Source σ] {s s' : Scanner σ} {d d' : Draft} {level : Option Nat}
    (h : openBracket s d = .ok (level, s', d')) : s'.window.After s.window := by
  simp only [openBracket] at h
  split at h
  · simp [throw, throwThe, MonadExceptOf.throw, bind, Except.bind] at h
  · simp only [bind_eq_ok, Prod.exists] at h
    obtain ⟨_, s₁, htake, signs, s₂, hrun, h⟩ := h
    have start : s₂.window.After s.window :=
      (takeRun_reached hrun).trans_after
        ((take_after (by decide) htake).trans_reached (s.peek_reached 0))
    split at h
    · simp only [bind_eq_ok, Prod.exists] at h
      obtain ⟨_, s₃, hlast, d₁, _, h⟩ := h
      cases h
      exact (take_after Nat.one_pos hlast).trans_reached start.reached
    · cases h
      exact start

/-! ## Bodies -/

/-- Bytes inside a bracket that cannot begin its closer and stay on the line. -/
def isPlainInBracket (b : UInt8) : Bool :=
  b != Byte.bracketRight && b != Byte.newline

/-- The equals signs after a closing bracket. If they are as many as the level and another closing
bracket follows, the body has come to its closer, which is on the draft. -/
def bracketCandidate [Source σ] (level : Nat) (s : Scanner σ) (d : Draft) :
    Except Violation (Round (Scanner σ) (Draft × Bool)) := do
  let (signs, s) ← s.takeRun (· == Byte.equals)
  let d := d.append signs
  let s := s.right signs.length
  if signs.length = level ∧ s.window.unread.head? = some Byte.bracketRight then
    let (last, s) ← s.take 1
    return .done (s.right 1) (d.append last, true)
  else
    return .again s d

/-- The plain bytes at the front, and what stops them: a newline, or a closing bracket that may begin
the closer. Where nothing is left, the bracket is not closed. -/
def bracketRound [Source σ] (level : Nat) (s : Scanner σ) (d : Draft) :
    Except Violation (Round (Scanner σ) (Draft × Bool)) := do
  let (run, stop, s) := s.front isPlainInBracket
  match stop with
  | none =>
    if run = [] then return .done s (d.finish .badBracket, false)
    else
      let (_, s) ← s.take run.length
      return .again (s.right run.length) (d.append run)
  | some stop =>
    let (text, s) ← s.take (run.length + 1)
    let d := d.append text
    if stop = Byte.newline then return .again s.nextLine d
    else bracketCandidate level (s.right (run.length + 1)) d

theorem bracketCandidate_reached [Source σ] {level : Nat} {s : Scanner σ} {d : Draft}
    {r : Round (Scanner σ) (Draft × Bool)} (h : bracketCandidate level s d = .ok r) :
    r.state.window.Reached s.window := by
  simp only [bracketCandidate, bind_eq_ok, Prod.exists] at h
  obtain ⟨signs, s₁, hsigns, h⟩ := h
  have reached := takeRun_reached hsigns
  split at h
  · simp only [bind_eq_ok, Prod.exists] at h
    obtain ⟨_, s₂, hlast, h⟩ := h
    have last := (take_reached hlast).trans reached
    cases h
    exact last
  · cases h
    exact reached

theorem bracketRound_advances [Source σ] (level : Nat) : Advances (@bracketRound σ _ level) := by
  refine ⟨fun {s d r} h => ?_⟩
  have ahead := s.front_reached isPlainInBracket
  simp only [bracketRound] at h
  split at h
  · split at h
    · cases h
      exact ahead
    · rename_i hrun
      simp only [bind_eq_ok, Prod.exists] at h
      obtain ⟨_, s₁, htake, h⟩ := h
      cases h
      exact (take_length_after hrun htake).trans_reached ahead
  · simp only [bind_eq_ok, Prod.exists] at h
    obtain ⟨_, s₁, htake, h⟩ := h
    have after := (take_after (Nat.succ_pos _) htake).trans_reached ahead
    split at h
    · cases h
      exact after
    · exact Round.follows_of_after ((bracketCandidate_reached h).trans_after after)

/-- The body of a bracket whose opener has been consumed, up to its closer or to the end of the
input, and whether the closer was there. -/
def bracketBody [Source σ] (level : Nat) (s : Scanner σ) (d : Draft) :
    Except Violation (Scanner σ × Draft × Bool) :=
  repeatUntilDone (bracketRound level) (bracketRound_advances level).progresses s d

theorem bracketBody_reached [Source σ] {level : Nat} {s s' : Scanner σ} {d d' : Draft}
    {closed : Bool} (h : bracketBody level s d = .ok (s', d', closed)) :
    s'.window.Reached s.window :=
  (bracketRound_advances level).reached h

/-- Take the closer off the text and give the token its kind. -/
def closeBracket (level : Nat) (kind : Kind) (d : Draft) : Except Violation Draft := do
  let d ← d.strip (level + 2)
  return d.finish kind

end Listfile.Scanner
