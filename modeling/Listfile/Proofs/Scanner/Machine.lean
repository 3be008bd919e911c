import Listfile.Proofs.Scanner
import Listfile.Scanner.Next

/-!
# The rounds of the machine

Between two visits to its default mode the machine goes through the modes of at most one thing that it
reads. A round is what it does there as a whole: it passes over blanks or a line comment, or it comes to
a token, from the default mode back to it (`scanRound`). A round is one step of the machine, or two, or
three for a bracket that is closed (`StepsOf`).

So what comes of rounds comes of the machine, from whatever level and kind it may remember, and the
machine is in its default mode again when it has a token (`Finishes.machine`).
-/

namespace Listfile.Scanner

variable {σ : Type} [Source σ]

/-- What the machine does from its default mode until it is there again. -/
def scanRound (s : Scanner σ) (d : Draft) : Except Violation (Round (Scanner σ) Draft) := do
  match ← enter s d with
  | .token s d => return .done s d
  | .passed s d => return .again s d
  | .lineComment s d =>
    let (s, d) ← restOfLine s d
    return .again s d
  | .quoted s d =>
    let (s, d) ← quoted s d
    return .done s d
  | .bracket level kind s d =>
    let (s, d, closed) ← bracketBody level s d
    if closed then
      let d ← closeBracket level kind d
      return .done s d
    else
      return .done s d

/-- The steps of the machine that a round stands for. Without a token there is one, or a second from a
line comment. With a token there are up to three, and the machine is in its default mode after them. -/
def StepsOf (m : Machine σ) (d : Draft) : Round (Scanner σ) Draft → Prop
  | .again s' d' =>
    m.step d = .ok (.again { m with scanner := s', mode := .default } d') ∨
      ∃ s₁ d₁, m.step d = .ok (.again { m with scanner := s₁, mode := .lineComment } d₁) ∧
        ({ m with scanner := s₁, mode := .lineComment } : Machine σ).step d₁ =
          .ok (.again { m with scanner := s', mode := .default } d')
  | .done s' d' =>
    ∃ steps m', Finishes Machine.step steps m d m' d' ∧ m'.scanner = s' ∧ m'.mode = .default ∧
      steps ≤ 3

/-- The machine makes these steps from its default mode. -/
theorem stepsOf_scanRound {m : Machine σ} {d : Draft} {r : Round (Scanner σ) Draft}
    (hmode : m.mode = .default) (h : scanRound m.scanner d = .ok r) : StepsOf m d r := by
  simp only [scanRound, bind_eq_ok] at h
  obtain ⟨e, henter, h⟩ := h
  cases e with
  | token s d₁ =>
    cases h
    exact ⟨1, _, .done (Machine.Transition.token hmode henter).step_eq, rfl, rfl, by decide⟩
  | passed s d₁ =>
    cases h
    exact .inl (Machine.Transition.passed hmode henter).step_eq
  | lineComment s d₁ =>
    simp only [bind_eq_ok, Prod.exists] at h
    obtain ⟨s₂, d₂, hline, h⟩ := h
    cases h
    refine .inr ⟨s, d₁, (Machine.Transition.comment hmode henter).step_eq, ?_⟩
    exact (Machine.Transition.lineEnded (m := { m with scanner := s, mode := .lineComment }) rfl
      hline).step_eq
  | quoted s d₁ =>
    simp only [bind_eq_ok, Prod.exists] at h
    obtain ⟨s₂, d₂, hquoted, h⟩ := h
    cases h
    have hfirst := (Machine.Transition.quote hmode henter).step_eq
    have hsecond := (Machine.Transition.unquote
      (m := { m with scanner := s, mode := .quotedString }) rfl hquoted).step_eq
    exact ⟨2, _, .again hfirst (.done hsecond), rfl, rfl, by decide⟩
  | bracket level kind s d₁ =>
    have hfirst := (Machine.Transition.opened hmode henter).step_eq
    simp only [bind_eq_ok, Prod.exists] at h
    obtain ⟨s₂, d₂, closed, hbody, h⟩ := h
    cases closed with
    | true =>
      simp only [if_true, bind_eq_ok] at h
      obtain ⟨d₃, hclose, h⟩ := h
      cases h
      have hsecond := (Machine.Transition.closing
        (m := ⟨s, .bracketArgument, level, kind⟩) rfl hbody).step_eq
      have hthird := (Machine.Transition.closed
        (m := ⟨s₂, .bracketClosing, level, kind⟩) rfl hclose).step_eq
      exact ⟨3, _, .again hfirst (.again hsecond (.done hthird)), rfl, rfl, by decide⟩
    | false =>
      cases h
      have hsecond := (Machine.Transition.unclosed
        (m := ⟨s, .bracketArgument, level, kind⟩) rfl hbody).step_eq
      exact ⟨2, _, .again hfirst (.done hsecond), rfl, rfl, by decide⟩

/-- What comes of some rounds comes of the machine, in at most two steps for each round and one
more. -/
theorem Finishes.machine {rounds : Nat} {s s' : Scanner σ} {d d' : Draft}
    (h : Finishes scanRound rounds s d s' d') {m : Machine σ} (hscanner : m.scanner = s)
    (hmode : m.mode = .default) :
    ∃ steps m', Finishes Machine.step steps m d m' d' ∧ m'.scanner = s' ∧ m'.mode = .default ∧
      steps ≤ 2 * rounds + 1 := by
  induction h generalizing m with
  | done round =>
    rw [← hscanner] at round
    exact stepsOf_scanRound hmode round
  | @again n s s₁ s' d d₁ d' round later ih =>
    rw [← hscanner] at round
    obtain ⟨steps, m', hrun, hscanner', hmode', hle⟩ :=
      ih (m := { m with scanner := s₁, mode := .default }) rfl rfl
    rcases stepsOf_scanRound hmode round with hstep | ⟨s₂, d₂, hfirst, hsecond⟩
    · exact ⟨steps + 1, m', .again hstep hrun, hscanner', hmode', by omega⟩
    · exact ⟨steps + 2, m', .again hfirst (.again hsecond hrun), hscanner', hmode', by omega⟩

/-- What comes of some rounds is what is scanned. -/
theorem Finishes.scan_eq {rounds : Nat} {s s' : Scanner σ} {d d' : Draft}
    (h : Finishes scanRound rounds s d s' d') : scan s d = .ok (s', d') := by
  obtain ⟨steps, m', hrun, hscanner, -, -⟩ := h.machine (m := Machine.ofScanner s) rfl rfl
  have hok : (Machine.ofScanner s).run d = .ok (m', d') :=
    hrun.repeatUntilDone_eq Machine.step_progresses
  simp only [scan, hok, bind, Except.bind, pure, Except.pure, hscanner]

/-- A round that gives no token takes bytes, so rounds can be repeated. -/
theorem scanRound_progresses : Progresses (@scanRound σ _) := by
  refine ⟨fun {s d s' d'} h => ?_⟩
  rcases stepsOf_scanRound (m := Machine.ofScanner s) rfl h with hstep | ⟨s₁, d₁, hfirst, hsecond⟩
  · rcases (Machine.transition_of_step hstep).after rfl with hafter | ⟨_, _, hdone, -⟩
    · exact hafter
    · cases hdone
  · rcases (Machine.transition_of_step hfirst).after rfl with hafter | ⟨_, _, hdone, -⟩
    · exact (Machine.transition_of_step hsecond).reached.trans_after hafter
    · cases hdone

end Listfile.Scanner
