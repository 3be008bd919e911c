/-!
# Violations

Scanning rests on a few operations that can be asked for something impossible. They check what they
are asked for and refuse with a violation. That a scan never runs into one is a theorem about the
scanner and not a habit of its code.
-/

namespace Listfile

/-- A request that cannot be met. -/
inductive Violation where
  /-- More bytes were to be consumed than the window holds. -/
  | beyondWindow
  /-- More bytes were to be taken off a text than it has. -/
  | beyondText
  /-- An opener was to be read where no opening bracket stands. -/
  | notAtBracket
deriving DecidableEq, Repr

/-- A check that failed as a step of a longer one makes the longer one fail, so a success passes
through every step. -/
theorem bind_eq_ok {ε α β : Type} {x : Except ε α} {f : α → Except ε β} {b : β} :
    (x >>= f) = .ok b ↔ ∃ a, x = .ok a ∧ f a = .ok b := by
  cases x <;> simp [bind, Except.bind]

end Listfile
