import Listfile.Stream

/-!
# Reliable streams

A stream decides by itself how each call on it turns out. What is proved about reading streams is
proved for those that answer as storage does when nothing goes wrong (`Honest`): a read may be short
or be interrupted, but it fails to give bytes only where there are none left, and a move succeeds.
Whether a stream is of this sort is told by the calls that have been made on it and their answers, and
by no others.

`Stream.Run` is a sequence of calls. A run keeps the data, and it only adds to the calls made, so a
stream that has been honest at its end has been so all along (`Run.honest_before`). A stream whose
outcomes are all good ones is honest in every run (`Run.honest_of_obliging`).
-/

namespace Listfile

/-! ## Honest answers -/

/-- The position after calls on a stream that has started with its first byte. The latest call comes
first. -/
def positionAfter : List StreamCall → Nat
  | [] => 0
  | .read _ (.bytes bytes) :: earlier => positionAfter earlier + bytes.length
  | .read _ .interrupted :: earlier => positionAfter earlier
  | .read _ (.failed _) :: earlier => positionAfter earlier
  | .seek target moved :: earlier => if moved then target else positionAfter earlier

/-- No call on a stream over `data` has failed, and no read has given nothing while bytes were left.
Reads may have been short or interrupted. The latest call comes first. -/
def Honest (data : List UInt8) : List StreamCall → Prop
  | [] => True
  | .read _ (.bytes bytes) :: earlier =>
    (bytes = [] → data.length ≤ positionAfter earlier) ∧ Honest data earlier
  | .read _ .interrupted :: earlier => Honest data earlier
  | .read _ (.failed _) :: _ => False
  | .seek _ moved :: earlier => moved = true ∧ Honest data earlier

/-- Calls that have been honest so far were honest before the latest one. -/
theorem Honest.tail {data : List UInt8} {call : StreamCall} {earlier : List StreamCall}
    (h : Honest data (call :: earlier)) : Honest data earlier := by
  cases call with
  | read size answer =>
    cases answer with
    | bytes bytes => exact h.2
    | interrupted => exact h
    | failed cause => exact h.elim
  | seek target moved => exact h.2

namespace Stream

/-- The stream has started with its first byte, and its position is the one that its calls have led
to. -/
def InStep (s : Stream) : Prop :=
  s.position = positionAfter s.calls

/-- An honest read gives bytes, unless none are left, or is interrupted. -/
theorem read_of_honest {s s' : Stream} {size : Nat} {answer : ReadAnswer}
    (hread : s.read size = (answer, s')) (hstep : s.InStep) (h : Honest s.data s'.calls) :
    answer = .interrupted ∨ ∃ bytes, answer = .bytes bytes ∧ (bytes = [] → s.ahead = []) := by
  obtain ⟨hanswer, rfl⟩ := Prod.mk.inj hread
  change Honest s.data (.read size (s.answer size) :: s.calls) at h
  rw [hanswer] at h
  cases answer with
  | bytes bytes =>
    refine .inr ⟨bytes, rfl, ?_⟩
    intro hnil
    have hend := h.1 hnil
    rw [← hstep] at hend
    exact List.drop_eq_nil_of_le hend
  | interrupted => exact .inl rfl
  | failed cause => exact h.elim

/-- An honest move leads to its target. -/
theorem seek_of_honest {s : Stream} {target : Nat} (h : Honest s.data (s.seek target).2.calls) :
    (s.seek target).1 = true ∧ (s.seek target).2.ahead = s.data.drop target := by
  have hmoved : s.seeks.headD true = true := h.1
  refine ⟨hmoved, ?_⟩
  simp only [seek, ahead, hmoved, if_true]

/-! ## Runs -/

/-- Calls made on a stream one after the other. Each read asks for bytes. -/
inductive Run : Stream → Stream → Prop where
  /-- No call at all. -/
  | stay (s : Stream) : Run s s
  /-- A read and the calls after it. -/
  | read {s s' : Stream} {size : Nat} (pos : 0 < size) (later : Run (s.read size).2 s') : Run s s'
  /-- A move and the calls after it. -/
  | seek {s s' : Stream} (target : Nat) (later : Run (s.seek target).2 s') : Run s s'

/-- Runs can be joined. -/
theorem Run.trans {s s₁ s' : Stream} (first : s.Run s₁) (second : s₁.Run s') : s.Run s' := by
  induction first with
  | stay s => exact second
  | read hpos _ ih => exact .read hpos (ih second)
  | seek target _ ih => exact .seek target (ih second)

/-- A single read is a run. -/
theorem read_run (s : Stream) {size : Nat} (hpos : 0 < size) : s.Run (s.read size).2 :=
  .read hpos (.stay _)

/-- A single move is a run. -/
theorem seek_run (s : Stream) (target : Nat) : s.Run (s.seek target).2 :=
  .seek target (.stay _)

/-- A run leaves the data alone. -/
theorem Run.data {s s' : Stream} (run : s.Run s') : s'.data = s.data := by
  induction run with
  | stay s => rfl
  | read _ _ ih => exact ih
  | seek _ _ ih => exact ih

/-- A read keeps the position in step with the calls. -/
theorem InStep.read {s : Stream} (h : s.InStep) (size : Nat) : (s.read size).2.InStep := by
  simp only [InStep, Stream.read]
  cases s.answer size with
  | bytes bytes => rw [positionAfter, h]
  | interrupted => exact h
  | failed cause => exact h

/-- A move keeps the position in step with the calls. -/
theorem InStep.seek {s : Stream} (h : s.InStep) (target : Nat) : (s.seek target).2.InStep := by
  have hposition : s.position = positionAfter s.calls := h
  simp only [InStep, Stream.seek, positionAfter, hposition]

/-- A run keeps the position in step with the calls. -/
theorem Run.inStep {s s' : Stream} (run : s.Run s') (h : s.InStep) : s'.InStep := by
  induction run with
  | stay s => exact h
  | read _ _ ih => exact ih (h.read _)
  | seek target _ ih => exact ih (h.seek target)

/-- A stream that has been honest up to the end of a run was so at its start. -/
theorem Run.honest_before {s s' : Stream} (run : s.Run s') (h : Honest s'.data s'.calls) :
    Honest s.data s.calls := by
  induction run with
  | stay s => exact h
  | read _ _ ih => exact (ih h).tail
  | seek _ _ ih => exact (ih h).tail

/-! ## Good outcomes -/

/-- All outcomes of a stream are good ones: reads give bytes or are interrupted, and moves succeed. -/
structure Obliging (s : Stream) : Prop where
  /-- Each read that is laid down is interrupted or gives bytes. -/
  reads : ∀ outcome ∈ s.reads, outcome = .interrupted ∨ ∃ n, 0 < n ∧ outcome = .upTo n
  /-- The other reads succeed. -/
  failure : s.failure = none
  /-- Moves succeed. -/
  seeks : ∀ moved ∈ s.seeks, moved = true

/-- The next outcome of an obliging stream is a good one. -/
theorem Obliging.nextOutcome {s : Stream} (h : s.Obliging) {size : Nat} (hpos : 0 < size) :
    s.nextOutcome size = .interrupted ∨ ∃ n, 0 < n ∧ s.nextOutcome size = .upTo n := by
  unfold Stream.nextOutcome
  cases hreads : s.reads with
  | nil =>
    rw [h.failure]
    exact .inr ⟨size, hpos, rfl⟩
  | cons outcome later =>
    apply h.reads outcome
    rw [hreads]
    exact List.mem_cons_self

/-- A read leaves an obliging stream obliging and honest. -/
theorem Obliging.read {s : Stream} (h : s.Obliging) (hstep : s.InStep)
    (hhonest : Honest s.data s.calls) {size : Nat} (hpos : 0 < size) :
    (s.read size).2.Obliging ∧ Honest s.data (s.read size).2.calls := by
  refine ⟨⟨fun outcome hmem => h.reads outcome (List.mem_of_mem_tail hmem), h.failure, h.seeks⟩, ?_⟩
  show Honest s.data (.read size (s.answer size) :: s.calls)
  unfold answer
  rcases h.nextOutcome hpos with houtcome | ⟨n, hn, houtcome⟩
  · rw [houtcome]
    exact hhonest
  · rw [houtcome]
    refine ⟨fun hnil => ?_, hhonest⟩
    rw [← hstep]
    rcases List.take_eq_nil_iff.1 hnil with hzero | hahead
    · omega
    · exact List.drop_eq_nil_iff.1 hahead

/-- A move leaves an obliging stream obliging and honest. -/
theorem Obliging.seek {s : Stream} (h : s.Obliging) (hhonest : Honest s.data s.calls)
    (target : Nat) : (s.seek target).2.Obliging ∧ Honest s.data (s.seek target).2.calls := by
  refine ⟨⟨h.reads, h.failure, fun moved hmem => h.seeks moved (List.mem_of_mem_tail hmem)⟩, ?_,
    hhonest⟩
  cases hseeks : s.seeks with
  | nil => rfl
  | cons moved later =>
    apply h.seeks moved
    rw [hseeks]
    exact List.mem_cons_self

/-- An obliging stream is honest in every run. -/
theorem Run.honest_of_obliging {s s' : Stream} (run : s.Run s') (h : s.Obliging)
    (hstep : s.InStep) (hhonest : Honest s.data s.calls) : Honest s'.data s'.calls := by
  induction run with
  | stay s => exact hhonest
  | read hpos _ ih =>
    obtain ⟨hobliging, hread⟩ := h.read hstep hhonest hpos
    exact ih hobliging (hstep.read _) hread
  | seek target _ ih =>
    obtain ⟨hobliging, hseek⟩ := h.seek hhonest target
    exact ih hobliging (hstep.seek target) hseek

end Stream

end Listfile
