import Listfile.Scanner.Enter
import Listfile.Scanner.Quoted

/-!
# The scanning machine

Tokens are read by a machine with five modes.

* In the default mode it is between two tokens. What the next bytes lead to is a token, or blanks
  that are passed over, or one of the modes below.
* A line comment is left at the end of its line, for the default mode.
* A quoted argument is left at its closing quote, or at the end of the input, with a token.
* A bracket argument is left at its closer for the mode that closes it, or at the end of the input
  with a token.
* In the mode that closes a bracket the closer is on the draft; it is taken off, and this gives the
  token.

The machine remembers the level and the kind of the bracket that it has opened last, also when this
has been closed. `Machine.step` is one step, and `Machine.run` repeats steps until there is a token.

A step that gives no token consumes bytes or goes down in the rank of modes: a line comment that the
end of the input cuts off is left without consuming anything, but for the default mode.
-/

namespace Listfile

/-- What a machine is reading. -/
inductive Mode where
  /-- Nothing: it is between two tokens. -/
  | default
  /-- The rest of a line comment. -/
  | lineComment
  /-- A quoted argument behind its opening quote. -/
  | quotedString
  /-- A bracket behind its opener. -/
  | bracketArgument
  /-- A bracket whose closer is on the draft. -/
  | bracketClosing
deriving DecidableEq, Repr

/-- How far a mode is from the default mode, in steps without bytes. -/
def Mode.rank : Mode → Nat
  | default => 0
  | lineComment | quotedString | bracketClosing => 1
  | bracketArgument => 2

/-- A scanner that may be inside of a token. -/
structure Machine (σ : Type) where
  /-- The scanner. -/
  scanner : Scanner σ
  /-- What is being read. -/
  mode : Mode
  /-- The number of equals signs in the delimiters of the bracket opened last. It counts only in the
  modes for brackets. -/
  level : Nat
  /-- The kind of the bracket opened last, when closed. -/
  kind : Kind
deriving Repr

namespace Machine

variable {σ : Type}

/-- The machine that no bracket has been opened in. -/
def ofScanner (s : Scanner σ) : Machine σ :=
  ⟨s, .default, 0, .bracket⟩

/-! ## One step -/

open Scanner in
/-- One step: go on reading what the mode says. -/
def step [Source σ] (m : Machine σ) (d : Draft) :
    Except Violation (Round (Machine σ) Draft) := do
  match m.mode with
  | .default =>
    match ← enter m.scanner d with
    | .token s d => return .done { m with scanner := s } d
    | .passed s d => return .again { m with scanner := s } d
    | .lineComment s d => return .again { m with scanner := s, mode := .lineComment } d
    | .quoted s d => return .again { m with scanner := s, mode := .quotedString } d
    | .bracket level kind s d => return .again ⟨s, .bracketArgument, level, kind⟩ d
  | .lineComment =>
    let (s, d) ← restOfLine m.scanner d
    return .again { m with scanner := s, mode := .default } d
  | .quotedString =>
    let (s, d) ← quoted m.scanner d
    return .done { m with scanner := s, mode := .default } d
  | .bracketArgument =>
    let (s, d, closed) ← bracketBody m.level m.scanner d
    return if closed then .again { m with scanner := s, mode := .bracketClosing } d
      else .done { m with scanner := s, mode := .default } d
  | .bracketClosing =>
    let d ← closeBracket m.level m.kind d
    return .done { m with mode := .default } d

/-- The transitions of the machine: from each mode, what has been read and what comes of it. -/
inductive Transition [Source σ] (m : Machine σ) (d : Draft) :
    Scanner.Round (Machine σ) Draft → Prop where
  /-- Between tokens, a token is read to its end, or the input has ended. -/
  | token {s : Scanner σ} {d' : Draft} (mode : m.mode = .default)
      (read : m.scanner.enter d = .ok (.token s d')) :
      Transition m d (.done { m with scanner := s, mode := .default } d')
  /-- Blanks are passed over. -/
  | passed {s : Scanner σ} {d' : Draft} (mode : m.mode = .default)
      (read : m.scanner.enter d = .ok (.passed s d')) :
      Transition m d (.again { m with scanner := s, mode := .default } d')
  /-- A line comment begins. -/
  | comment {s : Scanner σ} {d' : Draft} (mode : m.mode = .default)
      (read : m.scanner.enter d = .ok (.lineComment s d')) :
      Transition m d (.again { m with scanner := s, mode := .lineComment } d')
  /-- A quoted argument is opened. -/
  | quote {s : Scanner σ} {d' : Draft} (mode : m.mode = .default)
      (read : m.scanner.enter d = .ok (.quoted s d')) :
      Transition m d (.again { m with scanner := s, mode := .quotedString } d')
  /-- A bracket is opened, and its level and kind are remembered. -/
  | opened {level : Nat} {kind : Kind} {s : Scanner σ} {d' : Draft} (mode : m.mode = .default)
      (read : m.scanner.enter d = .ok (.bracket level kind s d')) :
      Transition m d (.again ⟨s, .bracketArgument, level, kind⟩ d')
  /-- A line comment ends with its line, or with the input. -/
  | lineEnded {s : Scanner σ} {d' : Draft} (mode : m.mode = .lineComment)
      (read : m.scanner.restOfLine d = .ok (s, d')) :
      Transition m d (.again { m with scanner := s, mode := .default } d')
  /-- A quoted argument ends, closed or not. -/
  | unquote {s : Scanner σ} {d' : Draft} (mode : m.mode = .quotedString)
      (read : m.scanner.quoted d = .ok (s, d')) :
      Transition m d (.done { m with scanner := s, mode := .default } d')
  /-- The closer of a bracket has been read. -/
  | closing {s : Scanner σ} {d' : Draft} (mode : m.mode = .bracketArgument)
      (read : m.scanner.bracketBody m.level d = .ok (s, d', true)) :
      Transition m d (.again { m with scanner := s, mode := .bracketClosing } d')
  /-- A bracket is not closed before the input ends. -/
  | unclosed {s : Scanner σ} {d' : Draft} (mode : m.mode = .bracketArgument)
      (read : m.scanner.bracketBody m.level d = .ok (s, d', false)) :
      Transition m d (.done { m with scanner := s, mode := .default } d')
  /-- The closer is taken off. -/
  | closed {d' : Draft} (mode : m.mode = .bracketClosing)
      (strip : Scanner.closeBracket m.level m.kind d = .ok d') :
      Transition m d (.done { m with mode := .default } d')

/-- A step makes one of these transitions. -/
theorem transition_of_step [Source σ] {m : Machine σ} {d : Draft}
    {r : Scanner.Round (Machine σ) Draft} (h : m.step d = .ok r) : Transition m d r := by
  cases hmode : m.mode with
  | default =>
    simp only [step, hmode, bind_eq_ok] at h
    obtain ⟨e, henter, h⟩ := h
    cases e with
    | token => cases h; exact .token hmode henter
    | passed => cases h; exact .passed hmode henter
    | lineComment => cases h; exact .comment hmode henter
    | quoted => cases h; exact .quote hmode henter
    | bracket => cases h; exact .opened hmode henter
  | lineComment =>
    simp only [step, hmode, bind_eq_ok, Prod.exists] at h
    obtain ⟨s, d', hline, h⟩ := h
    cases h
    exact .lineEnded hmode hline
  | quotedString =>
    simp only [step, hmode, bind_eq_ok, Prod.exists] at h
    obtain ⟨s, d', hquoted, h⟩ := h
    cases h
    exact .unquote hmode hquoted
  | bracketArgument =>
    simp only [step, hmode, bind_eq_ok, Prod.exists] at h
    obtain ⟨s, d', closed, hbody, h⟩ := h
    cases closed with
    | true => cases h; exact .closing hmode hbody
    | false => cases h; exact .unclosed hmode hbody
  | bracketClosing =>
    simp only [step, hmode, bind_eq_ok] at h
    obtain ⟨d', hclose, h⟩ := h
    cases h
    exact .closed hmode hclose

/-- Each of these transitions is made by a step. -/
theorem Transition.step_eq [Source σ] {m : Machine σ} {d : Draft}
    {r : Scanner.Round (Machine σ) Draft} (h : Transition m d r) : m.step d = .ok r := by
  cases h with
  | token hmode hread | passed hmode hread | comment hmode hread | quote hmode hread
  | opened hmode hread | lineEnded hmode hread | unquote hmode hread | closing hmode hread
  | unclosed hmode hread | closed hmode hread =>
    simp only [step, hmode, hread]
    rfl

/-! ## Progress -/

/-- Machines are ordered by their windows, and on the same window by the rank of their modes. -/
instance [Source σ] : WellFoundedRelation (Machine σ) :=
  invImage (fun m => (m.scanner.window, m.mode.rank)) (Prod.lex inferInstance Nat.lt_wfRel)

/-- A machine on a window that comes after is below. -/
theorem rel_of_after [Source σ] {m m' : Machine σ}
    (h : m'.scanner.window.After m.scanner.window) : WellFoundedRelation.rel m' m :=
  Prod.Lex.left _ _ h

/-- A machine in a mode of lower rank, on a window that has been reached, is below. -/
theorem rel_of_rank_lt [Source σ] {m m' : Machine σ}
    (h : m'.scanner.window.Reached m.scanner.window) (hrank : m'.mode.rank < m.mode.rank) :
    WellFoundedRelation.rel m' m := by
  rcases h with hsame | hafter
  · show Prod.Lex _ _ (m'.scanner.window, m'.mode.rank) (m.scanner.window, m.mode.rank)
    rw [hsame]
    exact Prod.Lex.right _ hrank
  · exact rel_of_after hafter

/-- A transition from the default mode takes bytes, or it finds the end of the input. -/
theorem Transition.after [Source σ] {m : Machine σ} {d : Draft}
    {r : Scanner.Round (Machine σ) Draft} (h : Transition m d r) (hdefault : m.mode = .default) :
    r.state.scanner.window.After m.scanner.window ∨
      ∃ m' d', r = .done m' d' ∧ d'.kind = .nothing ∧
        m'.scanner.window.Reached m.scanner.window := by
  cases h with
  | token hmode hread =>
    rcases Scanner.enter_after hread with hafter | ⟨s, d', heq, hkind, hreached⟩
    · exact .inl hafter
    · cases heq
      exact .inr ⟨_, _, rfl, hkind, hreached⟩
  | passed hmode hread | comment hmode hread | quote hmode hread | opened hmode hread =>
    rcases Scanner.enter_after hread with hafter | ⟨_, _, htoken, -⟩
    · exact .inl hafter
    · cases htoken
  | lineEnded hmode | unquote hmode | closing hmode | unclosed hmode | closed hmode =>
    rw [hmode] at hdefault
    cases hdefault

/-- No transition goes back. -/
theorem Transition.reached [Source σ] {m : Machine σ} {d : Draft}
    {r : Scanner.Round (Machine σ) Draft} (h : Transition m d r) :
    r.state.scanner.window.Reached m.scanner.window := by
  by_cases hmode : m.mode = .default
  · rcases h.after hmode with hafter | ⟨m', d', rfl, -, hreached⟩
    · exact hafter.reached
    · exact hreached
  cases h with
  | token hdefault | passed hdefault | comment hdefault | quote hdefault | opened hdefault =>
    exact absurd hdefault hmode
  | lineEnded _ hread => exact Scanner.restOfLine_reached hread
  | unquote _ hread => exact Scanner.quoted_reached hread
  | closing _ hread | unclosed _ hread => exact Scanner.bracketBody_reached hread
  | closed => exact Window.Reached.refl _

/-- A transition that gives no token takes bytes, or it leads to a mode of lower rank. -/
theorem Transition.rel [Source σ] {m m' : Machine σ} {d d' : Draft}
    (h : Transition m d (.again m' d')) : WellFoundedRelation.rel m' m := by
  by_cases hdefault : m.mode = .default
  · rcases h.after hdefault with hafter | ⟨_, _, hdone, -⟩
    · exact rel_of_after hafter
    · cases hdone
  refine rel_of_rank_lt h.reached ?_
  cases h with
  | passed hmode | comment hmode | quote hmode | opened hmode => exact absurd hmode hdefault
  | lineEnded hmode =>
    rw [hmode]
    exact Nat.one_pos
  | closing hmode =>
    rw [hmode]
    exact Nat.lt_succ_self 1

theorem step_progresses [Source σ] : Scanner.Progresses (@step σ _) :=
  ⟨fun h => (transition_of_step h).rel⟩

/-! ## Runs -/

/-- Steps until there is a token. -/
def run [Source σ] (m : Machine σ) (d : Draft) : Except Violation (Machine σ × Draft) :=
  Scanner.repeatUntilDone step step_progresses m d

/-- From the default mode, a token other than the end of the input takes bytes. -/
theorem run_after [Source σ] {m m' : Machine σ} {d d' : Draft} (hmode : m.mode = .default)
    (h : m.run d = .ok (m', d')) (hkind : d'.kind ≠ .nothing) :
    m'.scanner.window.After m.scanner.window := by
  -- Before the first step nothing has been taken, but then the machine is in the default mode.
  refine Scanner.repeatUntilDone_keeps
    (P := fun m₁ => m₁ = m ∨ m₁.scanner.window.After m.scanner.window)
    (Q := fun m₁ d₁ => d₁.kind ≠ .nothing → m₁.scanner.window.After m.scanner.window)
    ?_ ?_ (.inl rfl) h hkind
  · rintro m₁ d₁ m₂ d₂ (rfl | hafter) hstep
    · rcases (transition_of_step hstep).after hmode with hafter | ⟨_, _, hdone, -⟩
      · exact .inr hafter
      · cases hdone
    · exact .inr ((transition_of_step hstep).reached.trans_after hafter)
  · rintro m₁ d₁ m₂ d₂ (rfl | hafter) hstep hkind₂
    · rcases (transition_of_step hstep).after hmode with hafter | ⟨_, _, hdone, hnothing, -⟩
      · exact hafter
      · cases hdone
        exact absurd hnothing hkind₂
    · exact (transition_of_step hstep).reached.trans_after hafter

end Machine

end Listfile
