import Listfile.Source
import Listfile.Violation

/-!
# Windows

A window holds the bytes that a source has handed out and nobody has consumed. When it holds fewer
than are wanted, it asks the source for as many as fit, once; after an answer without bytes it
never asks again. The window also keeps the history of its requests (`Refill`).

Three operations look through it: `demand` makes bytes ready, `take` consumes a number of bytes,
and `takeRun` consumes the longest run of bytes of one class, over as many refills as it takes.

Consuming bytes makes a window smaller in the order `Window.After`, which is well founded because
sources are finite. All scanning loops end by this order.
-/

namespace Listfile

/-- One request to a source. -/
structure Refill where
  /-- The number of bytes consumed before the request. -/
  taken : Nat
  /-- The room offered. -/
  room : Nat
  /-- The answer. -/
  bytes : List UInt8
deriving DecidableEq, Repr

/-- The unread part of what a source has handed out. -/
structure Window (σ : Type) where
  /-- The source behind the window. -/
  source : σ
  /-- The greatest number of bytes held. -/
  capacity : Nat
  /-- The bytes held, in order. -/
  unread : List UInt8
  /-- Whether the source has come to its end. -/
  exhausted : Bool
  /-- The number of bytes consumed so far. -/
  taken : Nat
  /-- The requests made so far, the latest first. -/
  refills : List Refill
deriving Repr

namespace Window

variable {σ : Type}

/-- The window on a source that nothing has been asked of. -/
def ofSource (source : σ) (capacity : Nat) : Window σ :=
  ⟨source, capacity, [], false, 0, []⟩

/-- The rooms offered to the source so far, the earliest first. -/
def requests (w : Window σ) : List Nat :=
  w.refills.reverse.map Refill.room

/-- The bytes handed out by the source so far. -/
def delivered (w : Window σ) : List UInt8 :=
  w.refills.reverse.flatMap Refill.bytes

/-! ## The order of windows -/

/-- One step down: the end of the source is found, or the source hands out bytes, or bytes are
consumed. -/
inductive Step [Source σ] : Window σ → Window σ → Prop where
  /-- The source comes to its end. -/
  | ended {w' w : Window σ} (before : w.exhausted = false) (after : w'.exhausted = true) :
      Step w' w
  /-- The source hands out bytes. -/
  | filled {w' w : Window σ} (same : w'.exhausted = w.exhausted)
      (below : Source.Below Source.fill w'.source w.source) : Step w' w
  /-- Bytes are consumed, and the source is left alone. -/
  | consumed {w' w : Window σ} (same : w'.exhausted = w.exhausted)
      (source : w'.source = w.source) (fewer : w'.unread.length < w.unread.length) : Step w' w

theorem step_wf [Source σ] : WellFounded (@Step σ _) := by
  let rank : Window σ → Nat × σ × Nat := fun w =>
    (if w.exhausted then 0 else 1, w.source, w.unread.length)
  let order := Prod.lex Nat.lt_wfRel (Prod.lex ⟨_, @Source.finite σ _⟩ Nat.lt_wfRel)
  refine Subrelation.wf ?_ (InvImage.wf rank order.wf)
  intro w' w h
  cases h with
  | ended before after =>
    simp only [InvImage, rank, before, after]
    exact Prod.Lex.left _ _ Nat.zero_lt_one
  | filled same below =>
    simp only [InvImage, rank, same]
    exact Prod.Lex.right _ (Prod.Lex.left _ _ below)
  | consumed same source fewer =>
    simp only [InvImage, rank, same, source]
    exact Prod.Lex.right _ (Prod.Lex.right _ fewer)

/-- A window is after another if steps down lead to it. -/
def After [Source σ] : Window σ → Window σ → Prop :=
  Relation.TransGen Step

instance [Source σ] : WellFoundedRelation (Window σ) :=
  ⟨After, step_wf.transGen⟩

/-- A window has been reached from another: it is that window or comes after it. -/
def Reached [Source σ] (w' w : Window σ) : Prop :=
  w' = w ∨ After w' w

theorem Reached.refl [Source σ] (w : Window σ) : Reached w w :=
  .inl rfl

theorem After.reached [Source σ] {w' w : Window σ} (h : After w' w) : Reached w' w :=
  .inr h

theorem After.trans_reached [Source σ] {w'' w' w : Window σ} (h : After w'' w')
    (h' : Reached w' w) : After w'' w := by
  rcases h' with rfl | h'
  · exact h
  · exact Relation.TransGen.trans h h'

theorem Reached.trans_after [Source σ] {w'' w' w : Window σ} (h : Reached w'' w')
    (h' : After w' w) : After w'' w := by
  rcases h with rfl | h
  · exact h'
  · exact Relation.TransGen.trans h h'

theorem Reached.trans [Source σ] {w'' w' w : Window σ} (h : Reached w'' w')
    (h' : Reached w' w) : Reached w'' w := by
  rcases h with rfl | h
  · exact h'
  · exact (h.trans_reached h').reached

/-! ## Refills -/

/-- Ask the source for as many bytes as fit, unless it has come to its end. -/
def refill [Source σ] (w : Window σ) : Window σ :=
  if w.exhausted then w
  else
    let room := w.capacity - w.unread.length
    let answer := Source.fill w.source room
    { w with
      source := answer.2
      unread := w.unread ++ answer.1
      exhausted := answer.1.isEmpty
      refills := ⟨w.taken, room, answer.1⟩ :: w.refills }

/-- Make `n` bytes ready, by a refill if the window holds fewer. One refill brings a byte or finds
the end, so it is enough wherever all but one of the bytes are held. -/
def demand [Source σ] (w : Window σ) (n : Nat) : Window σ :=
  if w.unread.length < n then w.refill else w

theorem refill_reached [Source σ] (w : Window σ) : Reached w.refill w := by
  unfold refill
  split
  · exact Reached.refl w
  · rename_i h
    have open' : w.exhausted = false := by simpa using h
    refine .inr (.single ?_)
    by_cases he : (Source.fill w.source (w.capacity - w.unread.length)).1 = []
    · exact .ended open' (by simp [he])
    · exact .filled (by simp [he, open']) ⟨_, he, rfl⟩

theorem demand_reached [Source σ] (w : Window σ) (n : Nat) : Reached (w.demand n) w := by
  unfold demand
  split
  · exact refill_reached w
  · exact Reached.refl w

/-- Asking for bytes leaves those that are held in place. -/
theorem unread_prefix_demand [Source σ] (w : Window σ) (n : Nat) :
    w.unread <+: (w.demand n).unread := by
  unfold demand
  split
  · unfold refill
    split
    · exact List.prefix_rfl
    · exact List.prefix_append _ _
  · exact List.prefix_rfl

/-- Asking for bytes that are held changes nothing. -/
theorem demand_of_le [Source σ] {w : Window σ} {n : Nat} (h : n ≤ w.unread.length) :
    w.demand n = w := by
  rw [demand, if_neg (by omega)]

/-! ## Consumption -/

/-- Consume the first `n` bytes held. -/
def take (w : Window σ) (n : Nat) : Except Violation (List UInt8 × Window σ) :=
  if n ≤ w.unread.length then
    .ok (w.unread.take n, { w with unread := w.unread.drop n, taken := w.taken + n })
  else .error .beyondWindow

theorem take_eq_ok {w w' : Window σ} {n : Nat} {bytes : List UInt8} :
    w.take n = .ok (bytes, w') ↔
      n ≤ w.unread.length ∧ w.unread.take n = bytes ∧
        { w with unread := w.unread.drop n, taken := w.taken + n } = w' := by
  unfold take
  split
  · simp_all
  · simp only [reduceCtorEq, false_iff]
    omega

theorem take_after [Source σ] {w w' : Window σ} {n : Nat} {bytes : List UInt8} (hn : 0 < n)
    (h : w.take n = .ok (bytes, w')) : After w' w := by
  obtain ⟨hle, -, rfl⟩ := take_eq_ok.1 h
  exact .single (.consumed rfl rfl (by simp only [List.length_drop]; omega))

theorem take_reached [Source σ] {w w' : Window σ} {n : Nat} {bytes : List UInt8}
    (h : w.take n = .ok (bytes, w')) : Reached w' w := by
  rcases Nat.eq_zero_or_pos n with rfl | hn
  · obtain ⟨-, -, rfl⟩ := take_eq_ok.1 h
    exact Reached.refl w
  · exact (take_after hn h).reached

/-- Consuming a run that is not empty makes the window smaller. -/
theorem take_takeWhile_after [Source σ] {p : UInt8 → Bool} {w w' : Window σ} {run : List UInt8}
    (h : w.take (w.unread.takeWhile p).length = .ok (run, w')) (hrun : run ≠ []) :
    After w' w := by
  refine take_after (Nat.pos_of_ne_zero fun hzero => hrun ?_) h
  obtain ⟨-, hbytes, -⟩ := take_eq_ok.1 h
  rw [← hbytes, hzero, List.take_zero]

/-- Consume the longest run of bytes of one class, refilling as long as all bytes held belong to it.
-/
def takeRun [Source σ] (p : UInt8 → Bool) (w : Window σ) :
    Except Violation (List UInt8 × Window σ) :=
  match h : (w.demand 1).take ((w.demand 1).unread.takeWhile p).length with
  | .error v => .error v
  | .ok (run, w') =>
    if hrun : run ≠ [] ∧ w'.unread = [] then
      have : After w' w := (take_takeWhile_after h hrun.1).trans_reached (demand_reached w 1)
      match takeRun p w' with
      | .error v => .error v
      | .ok (more, w'') => .ok (run ++ more, w'')
    else .ok (run, w')
termination_by w

theorem takeRun_eq [Source σ] (p : UInt8 → Bool) (w : Window σ) :
    w.takeRun p =
      match (w.demand 1).take ((w.demand 1).unread.takeWhile p).length with
      | .error v => .error v
      | .ok (run, w') =>
        if run ≠ [] ∧ w'.unread = [] then
          match w'.takeRun p with
          | .error v => .error v
          | .ok (more, w'') => .ok (run ++ more, w'')
        else .ok (run, w') := by
  rw [takeRun]
  split
  · rename_i h
    rw [h]
  · rename_i h
    simp only [h, dite_eq_ite]

theorem takeRun_reached [Source σ] {p : UInt8 → Bool} {w w' : Window σ} {run : List UInt8}
    (h : w.takeRun p = .ok (run, w')) : Reached w' w := by
  fun_induction takeRun p w generalizing run w' with
  | case1 => simp at h
  | case2 => simp at h
  | case3 w run₁ w₁ htake hrun _ more w₂ hmore ih =>
    simp only [Except.ok.injEq, Prod.mk.injEq] at h
    obtain ⟨-, rfl⟩ := h
    exact (ih hmore).trans ((take_reached htake).trans (demand_reached w 1))
  | case4 w run₁ w₁ htake hrun =>
    simp only [Except.ok.injEq, Prod.mk.injEq] at h
    obtain ⟨-, rfl⟩ := h
    exact (take_reached htake).trans (demand_reached w 1)

end Window

end Listfile
