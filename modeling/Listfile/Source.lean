/-!
# Byte sources

A source hands out its bytes on request, as many as it likes at a time but never more than there is
room for; handing out none says that it has come to its end. What a source does depends on its
state and on the room alone.

Two laws make a source fit to be read from: an answer fits the room, and no sequence of requests is
answered with bytes for ever (`Source.finite`). The second is what every loop over a source ends
by; it asks for no bound that is known in advance.
-/

namespace Listfile

/-- A state `s'` is below `s` if `s` reaches it by handing out at least one byte. -/
def Source.Below {σ : Type} (fill : σ → Nat → List UInt8 × σ) (s' s : σ) : Prop :=
  ∃ room, (fill s room).1 ≠ [] ∧ (fill s room).2 = s'

/-- Types of states that bytes can be taken from. -/
class Source (σ : Type) where
  /-- The bytes handed out for the given room, and the state afterwards. -/
  fill : σ → Nat → List UInt8 × σ
  /-- An answer fits the room. -/
  length_fill_le : ∀ s room, (fill s room).1.length ≤ room
  /-- Bytes are not handed out for ever. -/
  finite : WellFounded (Source.Below fill)

namespace Source

/-- A source is finite if handing out bytes lowers some number. -/
theorem finite_of_measure {σ : Type} (fill : σ → Nat → List UInt8 × σ) (size : σ → Nat)
    (h : ∀ s room, (fill s room).1 ≠ [] → size (fill s room).2 < size s) :
    WellFounded (Below fill) := by
  refine Subrelation.wf (r := InvImage (· < ·) size) ?_ (InvImage.wf size Nat.lt_wfRel.wf)
  rintro s' s ⟨room, hne, rfl⟩
  exact h s room hne

end Source

end Listfile
