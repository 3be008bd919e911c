import Listfile.Scanner

/-!
# Scanning blanks and the rest of a line

Both are read over as many refills as it takes. Blanks are put on the draft if the settings ask for
them; the rest of a line comes into no token, and the newline that ends it belongs to it.
-/

namespace Listfile.Scanner

variable {σ : Type}

/-! ## Blanks -/

/-- The blanks at the front. The run goes on as long as they are all that is held. -/
def blankRound [Source σ] (s : Scanner σ) (d : Draft) :
    Except Violation (Round (Scanner σ) Draft) := do
  let (run, stop, s) := s.front Byte.isBlank
  let d := if s.emitSpace then d.append run else d
  let (_, s) ← s.take run.length
  let s := s.right run.length
  return if run ≠ [] ∧ stop = none then .again s d else .done s d

theorem blankRound_advances [Source σ] : Advances (@blankRound σ _) := by
  refine ⟨fun {s d r} h => ?_⟩
  have ahead := s.front_reached Byte.isBlank
  simp only [blankRound, bind_eq_ok, Prod.exists] at h
  obtain ⟨_, s₁, htake, h⟩ := h
  split at h
  · rename_i hrun
    cases h
    exact (take_length_after hrun.1 htake).trans_reached ahead
  · cases h
    exact (take_reached htake).trans ahead

/-- The blanks up to the next byte of another class. -/
def blanks [Source σ] (s : Scanner σ) (d : Draft) : Except Violation (Scanner σ × Draft) :=
  repeatUntilDone blankRound blankRound_advances.progresses s d

/-- Where a blank is held, it is taken. -/
theorem blanks_after [Source σ] {s s' : Scanner σ} {d d' : Draft} {b : UInt8}
    (hhead : s.window.unread.head? = some b) (hblank : Byte.isBlank b = true)
    (h : blanks s d = .ok (s', d')) : s'.window.After s.window := by
  refine blankRound_advances.after (fun r hround => ?_) h
  obtain ⟨later, hlater⟩ := List.head?_eq_some_iff.1 hhead
  simp only [blankRound, front_of_head hhead, hlater, List.takeWhile_cons_of_pos hblank, bind_eq_ok,
    Prod.exists] at hround
  obtain ⟨_, s₁, htake, hround⟩ := hround
  have after : s₁.window.After s.window := take_after (Nat.succ_pos _) htake
  split at hround <;> cases hround <;> exact after

/-! ## Lines -/

/-- The bytes at the front up to a newline, with the newline if it is held. -/
def lineRound [Source σ] (s : Scanner σ) (d : Draft) :
    Except Violation (Round (Scanner σ) Draft) := do
  let (run, stop, s) := s.front (· != Byte.newline)
  match stop with
  | none =>
    if run = [] then return .done s d
    else
      let (_, s) ← s.take run.length
      return .again (s.right run.length) d
  | some _ =>
    let (_, s) ← s.take (run.length + 1)
    return .done s.nextLine d

theorem lineRound_advances [Source σ] : Advances (@lineRound σ _) := by
  refine ⟨fun {s d r} h => ?_⟩
  have ahead := s.front_reached (· != Byte.newline)
  simp only [lineRound] at h
  split at h
  · split at h
    · cases h
      exact ahead
    · rename_i hrun
      simp only [bind_eq_ok, Prod.exists] at h
      obtain ⟨_, s₁, htake, h⟩ := h
      cases h
      exact (take_length_after hrun htake).trans_reached ahead
  · simp only [bind_eq_ok, Prod.exists] at h
    obtain ⟨_, s₁, htake, h⟩ := h
    have reached := (take_reached htake).trans ahead
    cases h
    exact reached

/-- The rest of a line, with the newline that ends it. -/
def restOfLine [Source σ] (s : Scanner σ) (d : Draft) : Except Violation (Scanner σ × Draft) :=
  repeatUntilDone lineRound lineRound_advances.progresses s d

theorem restOfLine_reached [Source σ] {s s' : Scanner σ} {d d' : Draft}
    (h : restOfLine s d = .ok (s', d')) : s'.window.Reached s.window :=
  lineRound_advances.reached h

end Listfile.Scanner
