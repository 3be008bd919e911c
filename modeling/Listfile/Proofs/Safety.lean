import Listfile.Proofs.Delivery
import Listfile.Proofs.InPlace
import Listfile.Proofs.Progress

/-!
# Nothing is ever refused

Scanning rests on checks on two levels. The operations on a window, on a text and on an opener refuse
what is impossible (`Violation`), and so does every access to the cells that the window and the
sources are kept in (`Overrun`). No call ever runs into either, for all settings, all sources and all
numbers of calls (`refuses_nothing`).

A scanner trusts in what it has looked at before: it consumes bytes without asking whether they are
held, and takes a closer off a text to which it has been appended many rounds ago. That this trust is
justified is `Scanner.scan_eq_next`. What a call does to its window in the meantime is a path of refills
and consumptions, and these can all be carried out on cells (`Window.Path.shows`).

Sources that never come to their end are covered too. A call on such a source need not end, but
whatever it does up to some moment it does in the same way on a source that is cut off after the
answers given so far (`Limited`).
-/

namespace Listfile

/-! ## Supplies that may have no end -/

/-- Types of states that bytes can be taken from, with or without an end. -/
class Supply (υ : Type) where
  /-- The bytes handed out for the given room, and the state afterwards. -/
  fill : υ → Nat → List UInt8 × υ
  /-- An answer fits the room. -/
  length_fill_le : ∀ u room, (fill u room).1.length ≤ room

/-- A supply that is cut off after a number of answers. -/
structure Limited (υ : Type) where
  /-- The supply. -/
  supply : υ
  /-- The number of answers that it still gives. -/
  answers : Nat

namespace Limited

variable {υ : Type} [Supply υ]

/-- The answer of the supply, or none after the last one. -/
def fill (l : Limited υ) (room : Nat) : List UInt8 × Limited υ :=
  match l.answers with
  | 0 => ([], l)
  | answers + 1 => ((Supply.fill l.supply room).1, ⟨(Supply.fill l.supply room).2, answers⟩)

instance : Source (Limited υ) where
  fill := fill
  length_fill_le := by
    intro l room
    unfold fill
    split
    · exact Nat.zero_le _
    · exact Supply.length_fill_le _ _
  finite := by
    apply Source.finite_of_measure fill answers
    intro l room hne
    unfold fill at hne ⊢
    split at hne
    · exact absurd rfl hne
    · rename_i hanswers
      simp only [hanswers]
      exact Nat.lt_succ_self _

instance : Filler (Limited υ) (Limited υ) := Filler.ofSource (Limited υ)

end Limited

/-! ## Calls -/

namespace Scanner

/-- The scanning of a source is safe, in calls and in cells. -/
structure Safe {σ : Type} [Source σ] (τ : Type) [Filler τ σ] (settings : Settings) (source : σ)
    (d : Draft) : Prop where
  /-- There are cells for the two bytes that are looked at together. -/
  cells : 2 ≤ settings.windowSize
  /-- No check fails in the course of a call. -/
  calls : ∀ n,
    scan (after n (ofSource settings source) d).1 (after n (ofSource settings source) d).2 =
      .ok (after (n + 1) (ofSource settings source) d)
  /-- A call refills its window and consumes bytes that are held, and nothing else. -/
  moves : ∀ n, ∃ bytes, (after n (ofSource settings source) d).1.window.Path bytes
    (after (n + 1) (ofSource settings source) d).1.window
  /-- Wherever such moves lead, all requests made and all bytes consumed can be so on cells, and these
  serve for the window. -/
  serves : ∀ bytes w, (ofSource settings source).window.Path bytes w →
    ∃ st : Storage τ, Storage.ofWindow τ source w = .ok st ∧ st.Serves w

/-- Scanning is safe, whatever the source and the way it fills cells. -/
theorem safe {σ : Type} [Source σ] (τ : Type) [Filler τ σ] (settings : Settings) (source : σ)
    (d : Draft) : Safe τ settings source d := by
  refine ⟨settings.two_le_windowSize, ?_, ?_, ?_⟩
  · intro n
    rw [after_succ]
    exact scan_eq_next _ _
  · intro n
    obtain ⟨bytes, hpath, -, -⟩ := (after_scans n (ofSource settings source) d).agrees
    exact ⟨bytes, hpath⟩
  · intro bytes w hpath
    obtain ⟨st, hok, hshows⟩ := Window.Path.shows τ hpath
    exact ⟨st, hok, hshows.serves⟩

/-- Nothing is ever refused: not for any source and any way of filling cells, so not for bytes in
memory and streams as these fill them, and not for a supply without an end up to any moment. -/
theorem refuses_nothing (settings : Settings) (d : Draft) :
    (∀ (σ τ : Type) [Source σ] [Filler τ σ] (source : σ), Safe τ settings source d) ∧
      (∀ memory : Memory, Safe Tape settings memory d) ∧
      (∀ stream : Normalized, Safe Normalized settings stream d) ∧
      ∀ (υ : Type) [Supply υ] (supply : υ) (answers : Nat),
        Safe (Limited υ) settings (⟨supply, answers⟩ : Limited υ) d := by
  refine ⟨?_, ?_, ?_, ?_⟩
  · intro σ τ _ _ source
    exact safe τ settings source d
  · intro memory
    exact safe Tape settings memory d
  · intro stream
    exact safe Normalized settings stream d
  · intro υ _ supply answers
    exact safe (Limited υ) settings (⟨supply, answers⟩ : Limited υ) d

end Scanner

end Listfile
