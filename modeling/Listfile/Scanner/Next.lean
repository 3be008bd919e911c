import Listfile.Scanner.Machine

/-!
# The next token

`scan` reads one token into a draft: it lets the machine run from between two tokens. At the end of
the input the token is `Kind.nothing`, however often it is asked for.

A token of any other kind takes bytes (`scan_after`). So a source gives finitely many tokens, and
`readings` collects them all.
-/

namespace Listfile.Scanner

variable {σ : Type}

/-- Read the next token into a draft. -/
def scan [Source σ] (s : Scanner σ) (d : Draft) : Except Violation (Scanner σ × Draft) := do
  let (m, d) ← (Machine.ofScanner s).run d
  return (m.scanner, d)

/-- A token other than the end of the input takes bytes. -/
theorem scan_after [Source σ] {s s' : Scanner σ} {d d' : Draft}
    (h : scan s d = .ok (s', d')) (hkind : d'.kind ≠ .nothing) :
    s'.window.After s.window := by
  simp only [scan, bind_eq_ok, Prod.exists] at h
  obtain ⟨m, d₁, hrun, h⟩ := h
  cases h
  exact Machine.run_after rfl hrun hkind

/-- The next token, in the draft, and the scanner after it. Scanning runs into no violation; if it
did, the input would end there. -/
def next [Source σ] (s : Scanner σ) (d : Draft) : Scanner σ × Draft :=
  match scan s d with
  | .ok r => r
  | .error _ => (s, (d.start s.position).finish .nothing)

theorem next_after [Source σ] {s : Scanner σ} {d : Draft} (h : (next s d).2.kind ≠ .nothing) :
    (next s d).1.window.After s.window := by
  unfold next at h ⊢
  split at h
  · rename_i hscan
    exact scan_after hscan h
  · exact absurd rfl h

/-- A token, and the position of the byte after it. -/
structure Reading where
  /-- The token read. -/
  token : Token
  /-- Where scanning goes on. -/
  after : Position
deriving DecidableEq, Repr

/-- The reading that has led to this scanner and draft. -/
def reading (s : Scanner σ) (d : Draft) : Reading :=
  ⟨d.token, s.position⟩

/-- All readings up to the first end of the input, which is the last of them, and the state after
that. -/
def readings [Source σ] (s : Scanner σ) (d : Draft) : List Reading × Scanner σ × Draft :=
  let r := next s d
  if h : r.2.kind = .nothing then ([reading r.1 r.2], r)
  else
    have : r.1.window.After s.window := next_after h
    let more := readings r.1 r.2
    (reading r.1 r.2 :: more.1, more.2)
termination_by s.window

/-- The next `n` readings, ends of the input included, and the state after them. -/
def readingsN [Source σ] : Nat → Scanner σ → Draft → List Reading × Scanner σ × Draft
  | 0, s, d => ([], s, d)
  | n + 1, s, d =>
    let r := next s d
    let more := readingsN n r.1 r.2
    (reading r.1 r.2 :: more.1, more.2)

end Listfile.Scanner
