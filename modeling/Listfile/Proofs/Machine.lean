import Listfile.Proofs.Scanner.Run

/-!
# Between tokens a machine is its scanner

A machine is kept from call to call, and with it its mode and the level and the kind of the bracket that
it has opened last. Of these nothing is left that could matter to the next call.

* Whenever the machine has a token it is in its default mode, in whatever mode it was started
  (`Transition.mode_of_done`, `mode_of_run`).
* In the default mode the level and the kind are not looked at before they are set again: a call gives
  what a call of the scanner gives, and leaves its scanner (`run_of_default`). It takes at most three
  steps more than two for each byte (`finishes_of_default`).
* So it is for any number of calls of a machine that is kept between them (`readingsN_of_default`).
-/

namespace Listfile.Machine

variable {σ : Type} [Source σ]

/-! ## One call -/

/-- A transition that gives a token leads to the default mode. -/
theorem Transition.mode_of_done {m m' : Machine σ} {d d' : Draft}
    (h : Transition m d (.done m' d')) : m'.mode = .default := by
  cases h <;> rfl

/-- When a machine has a token it is in its default mode. -/
theorem mode_of_run {m m' : Machine σ} {d d' : Draft} (h : m.run d = .ok (m', d')) :
    m'.mode = .default := by
  refine Scanner.repeatUntilDone_keeps (P := fun _ => True) (Q := fun m' _ => m'.mode = .default)
    (fun _ _ => trivial) ?_ trivial h
  intro m₁ d₁ m₂ d₂ _ hstep
  exact (transition_of_step hstep).mode_of_done

/-- From the default mode, whatever level and kind are remembered, a machine comes to the token that its
scanner comes to, in at most three steps more than two for each byte that is consumed. -/
theorem finishes_of_default {m : Machine σ} (hmode : m.mode = .default) (d : Draft) :
    ∃ steps m', Scanner.Finishes step steps m d m' (m.scanner.next d).2 ∧
      m'.scanner = (m.scanner.next d).1 ∧ m'.mode = .default ∧
      2 * m.scanner.window.taken + steps ≤ 2 * (m.scanner.next d).1.window.taken + 3 := by
  obtain ⟨rounds, hfinishes, hrounds⟩ := m.scanner.next_finishes d
  obtain ⟨steps, m', hsteps, hscanner, hmode', hle⟩ := hfinishes.machine rfl hmode
  exact ⟨steps, m', hsteps, hscanner, hmode', by omega⟩

/-- From the default mode a call of a machine is a call of its scanner. -/
theorem run_of_default {m : Machine σ} (hmode : m.mode = .default) (d : Draft) :
    ∃ m', m.run d = .ok (m', (m.scanner.next d).2) ∧ m'.scanner = (m.scanner.next d).1 ∧
      m'.mode = .default := by
  obtain ⟨steps, m', hsteps, hscanner, hmode', -⟩ := finishes_of_default hmode d
  exact ⟨m', hsteps.repeatUntilDone_eq step_progresses, hscanner, hmode'⟩

/-! ## Any number of calls -/

/-- The next `n` readings of a machine that is kept from call to call, and what they lead to. -/
def readingsN : Nat → Machine σ → Draft →
    Except Violation (List Scanner.Reading × Machine σ × Draft)
  | 0, m, d => .ok ([], m, d)
  | n + 1, m, d => do
    let (m, d) ← m.run d
    let (more, last) ← readingsN n m d
    return (Scanner.reading m.scanner d :: more, last)

/-- From the default mode the calls of a machine are those of its scanner, and after each of them the
machine is in the default mode again. -/
theorem readingsN_of_default {m : Machine σ} (hmode : m.mode = .default) (n : Nat) (d : Draft) :
    ∃ m', m.readingsN n d =
        .ok ((m.scanner.readingsN n d).1, m', (Scanner.after n m.scanner d).2) ∧
      m'.scanner = (Scanner.after n m.scanner d).1 ∧ m'.mode = .default := by
  induction n generalizing m d with
  | zero => exact ⟨m, rfl, rfl, hmode⟩
  | succ n ih =>
    obtain ⟨m₁, hrun, hscanner, hmode₁⟩ := run_of_default hmode d
    obtain ⟨m', hmore, hscanner', hmode'⟩ := ih hmode₁ (m.scanner.next d).2
    rw [hscanner] at hmore hscanner'
    refine ⟨m', ?_, hscanner', hmode'⟩
    simp only [readingsN, hrun, hmore, bind, Except.bind, pure, Except.pure, hscanner]
    rfl

end Listfile.Machine
