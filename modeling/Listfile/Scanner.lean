import Listfile.Settings
import Listfile.Token.Draft
import Listfile.Window

/-!
# Scanners

A scanner reads tokens through a window. Between two tokens it knows the position of the next byte
and the number of open parentheses, and nothing else about the past.

This module holds the state and the operations on it. Looking ahead (`peek`, `front`) and consuming
bytes (`take`, `takeRun`) move the window only. The position is moved on its own (`right`,
`nextLine`): each function that scans says how far, and nothing here keeps it in step with the bytes
consumed.

Scanning functions repeat a body, round after round, until it finishes (`repeatUntilDone`). The
repetition ends because each round that asks for another has come down in a well-founded order.
-/

namespace Listfile

/-- The state of a scanner between two operations. -/
structure Scanner (σ : Type) where
  /-- The bytes ahead. -/
  window : Window σ
  /-- The position of the next byte. -/
  position : Position
  /-- The number of open parentheses. -/
  depth : Nat
  /-- Whether blank runs are tokens. -/
  emitSpace : Bool
deriving Repr

namespace Scanner

variable {σ : Type}

/-- A scanner at the start of a source. -/
def ofSource (settings : Settings) (source : σ) : Scanner σ where
  window := Window.ofSource source settings.windowSize
  position := Position.start
  depth := 0
  emitSpace := settings.emitSpace

/-! ## Looking and consuming -/

/-- The byte at distance `n` from the next one, if the input goes that far, and the scanner that has
it ready. -/
def peek [Source σ] (s : Scanner σ) (n : Nat) : Option UInt8 × Scanner σ :=
  let window := s.window.demand (n + 1)
  (window.unread[n]?, { s with window })

/-- The bytes of one class at the front of those held, and the byte held after them, if there is
one. If no byte was held, as many are asked for as fit. -/
def front [Source σ] (s : Scanner σ) (p : UInt8 → Bool) :
    List UInt8 × Option UInt8 × Scanner σ :=
  let window := s.window.demand 1
  (window.unread.takeWhile p, (window.unread.dropWhile p).head?, { s with window })

/-- Consume `n` bytes. -/
def take (s : Scanner σ) (n : Nat) : Except Violation (List UInt8 × Scanner σ) := do
  let (bytes, window) ← s.window.take n
  return (bytes, { s with window })

/-- Consume the longest run of bytes of one class. -/
def takeRun [Source σ] (s : Scanner σ) (p : UInt8 → Bool) :
    Except Violation (List UInt8 × Scanner σ) := do
  let (run, window) ← s.window.takeRun p
  return (run, { s with window })

/-- Looking at the next byte is looking at the first one that is then held. -/
theorem peek_zero_fst [Source σ] (s : Scanner σ) :
    (s.peek 0).1 = (s.peek 0).2.window.unread.head? := by
  rw [List.head?_eq_getElem?]
  rfl

/-- Looking ahead leaves the next byte the next one. -/
theorem peek_head [Source σ] {s : Scanner σ} {b : UInt8} (h : s.window.unread.head? = some b)
    (n : Nat) : (s.peek n).2.window.unread.head? = some b := by
  obtain ⟨later, hlater⟩ := List.head?_eq_some_iff.1 h
  obtain ⟨more, hmore⟩ := s.window.unread_prefix_demand (n + 1)
  have hunread : (s.peek n).2.window.unread = s.window.unread ++ more := hmore.symm
  rw [hunread, hlater]
  rfl

theorem peek_reached [Source σ] (s : Scanner σ) (n : Nat) :
    (s.peek n).2.window.Reached s.window :=
  s.window.demand_reached (n + 1)

theorem front_reached [Source σ] (s : Scanner σ) (p : UInt8 → Bool) :
    (s.front p).2.2.window.Reached s.window :=
  s.window.demand_reached 1

/-- Looking at a byte that is held changes nothing. -/
theorem peek_of_getElem? [Source σ] {s : Scanner σ} {n : Nat} {b : UInt8}
    (h : s.window.unread[n]? = some b) : s.peek n = (some b, s) := by
  have hlength := (List.getElem?_eq_some_iff.1 h).1
  rw [peek, Window.demand_of_le (by omega), h]

/-- Where a byte is held, looking at the front changes nothing. -/
theorem front_of_head [Source σ] {s : Scanner σ} {b : UInt8} (h : s.window.unread.head? = some b)
    (p : UInt8 → Bool) :
    s.front p = (s.window.unread.takeWhile p, (s.window.unread.dropWhile p).head?, s) := by
  rw [List.head?_eq_getElem?] at h
  have hlength := (List.getElem?_eq_some_iff.1 h).1
  rw [front, Window.demand_of_le (by omega)]

theorem take_eq_ok {s s' : Scanner σ} {n : Nat} {bytes : List UInt8} :
    s.take n = .ok (bytes, s') ↔
      ∃ window, s.window.take n = .ok (bytes, window) ∧ { s with window } = s' := by
  simp only [take, bind_eq_ok, Prod.exists, pure, Except.pure, Except.ok.injEq, Prod.mk.injEq]
  constructor
  · rintro ⟨_, window, h, rfl, hs⟩
    exact ⟨window, h, hs⟩
  · rintro ⟨window, h, hs⟩
    exact ⟨bytes, window, h, rfl, hs⟩

theorem take_zero (s : Scanner σ) : s.take 0 = .ok ([], s) := by
  refine take_eq_ok.2 ⟨s.window, Window.take_eq_ok.2 ⟨Nat.zero_le _, rfl, rfl⟩, rfl⟩

theorem take_after [Source σ] {s s' : Scanner σ} {n : Nat} {bytes : List UInt8} (hn : 0 < n)
    (h : s.take n = .ok (bytes, s')) : s'.window.After s.window := by
  obtain ⟨_, hw, rfl⟩ := take_eq_ok.1 h
  exact Window.take_after hn hw

theorem take_reached [Source σ] {s s' : Scanner σ} {n : Nat} {bytes : List UInt8}
    (h : s.take n = .ok (bytes, s')) : s'.window.Reached s.window := by
  obtain ⟨_, hw, rfl⟩ := take_eq_ok.1 h
  exact Window.take_reached hw

/-- Consuming a stretch that is not empty makes the window smaller. -/
theorem take_length_after [Source σ] {s s' : Scanner σ} {run bytes : List UInt8} (hrun : run ≠ [])
    (h : s.take run.length = .ok (bytes, s')) : s'.window.After s.window :=
  take_after (List.length_pos_iff.2 hrun) h

theorem takeRun_eq_ok [Source σ] {s s' : Scanner σ} {p : UInt8 → Bool} {run : List UInt8} :
    s.takeRun p = .ok (run, s') ↔
      ∃ window, s.window.takeRun p = .ok (run, window) ∧ { s with window } = s' := by
  simp only [takeRun, bind_eq_ok, Prod.exists, pure, Except.pure, Except.ok.injEq, Prod.mk.injEq]
  constructor
  · rintro ⟨_, window, h, rfl, hs⟩
    exact ⟨window, h, hs⟩
  · rintro ⟨window, h, hs⟩
    exact ⟨run, window, h, rfl, hs⟩

theorem takeRun_reached [Source σ] {s s' : Scanner σ} {p : UInt8 → Bool} {run : List UInt8}
    (h : s.takeRun p = .ok (run, s')) : s'.window.Reached s.window := by
  obtain ⟨_, hw, rfl⟩ := takeRun_eq_ok.1 h
  exact Window.takeRun_reached hw

/-! ## Moving the position -/

/-- Move the position `n` bytes to the right. -/
def right (s : Scanner σ) (n : Nat) : Scanner σ :=
  { s with position := s.position.right n }

/-- Move the position to the start of the next line. -/
def nextLine (s : Scanner σ) : Scanner σ :=
  { s with position := s.position.nextLine }

@[simp] theorem right_window (s : Scanner σ) (n : Nat) : (s.right n).window = s.window := rfl

/-! ## Rounds -/

/-- The outcome of one round of a loop. -/
inductive Round (α β : Type) where
  /-- The loop goes on from here. -/
  | again (a : α) (d : Draft)
  /-- The loop has come to its result. -/
  | done (a : α) (b : β)

/-- The state after a round, whatever its outcome. -/
def Round.state {α β : Type} : Round α β → α
  | again a _ | done a _ => a

section Repetition

variable {α β : Type} [WellFoundedRelation α]

/-- A body whose rounds come down whenever they ask for another one. -/
structure Progresses (body : α → Draft → Except Violation (Round α β)) : Prop where
  /-- The state after the round is below the one before it. -/
  after : ∀ {a d a' d'}, body a d = .ok (.again a' d') → WellFoundedRelation.rel a' a

/-- Run a body until it comes to a result. -/
def repeatUntilDone (body : α → Draft → Except Violation (Round α β)) (progress : Progresses body)
    (a : α) (d : Draft) : Except Violation (α × β) :=
  match h : body a d with
  | .error v => .error v
  | .ok (.done a' b) => .ok (a', b)
  | .ok (.again a' d') =>
    have : WellFoundedRelation.rel a' a := progress.after h
    repeatUntilDone body progress a' d'
termination_by a

theorem repeatUntilDone_eq (body : α → Draft → Except Violation (Round α β))
    (progress : Progresses body) (a : α) (d : Draft) :
    repeatUntilDone body progress a d =
      match body a d with
      | .error v => .error v
      | .ok (.done a' b) => .ok (a', b)
      | .ok (.again a' d') => repeatUntilDone body progress a' d' := by
  rw [repeatUntilDone]
  split <;> rename_i h <;> simp only [h]

/-- What every round keeps holds at the end. -/
theorem repeatUntilDone_keeps {body : α → Draft → Except Violation (Round α β)}
    {progress : Progresses body} {P : α → Prop} {Q : α → β → Prop}
    (hagain : ∀ {a d a' d'}, P a → body a d = .ok (.again a' d') → P a')
    (hdone : ∀ {a d a' b}, P a → body a d = .ok (.done a' b) → Q a' b)
    {a a' : α} {d : Draft} {b : β} (ha : P a)
    (h : repeatUntilDone body progress a d = .ok (a', b)) : Q a' b := by
  fun_induction repeatUntilDone body progress a d with
  | case1 => simp at h
  | case2 a d a₁ b₁ hbody =>
    cases h
    exact hdone ha hbody
  | case3 a d a₁ d₁ hbody _ ih => exact ih (hagain ha hbody) h

end Repetition

/-- Scanners are ordered by their windows. -/
instance [Source σ] : WellFoundedRelation (Scanner σ) :=
  invImage window inferInstance

variable {β : Type}

/-- A round that asks for another one has consumed bytes, and a round that finishes has not gone
back. -/
def Round.Follows [Source σ] (s : Scanner σ) : Round (Scanner σ) β → Prop
  | again s' _ => s'.window.After s.window
  | done s' _ => s'.window.Reached s.window

/-- Whatever a round does, it has not gone back. -/
theorem Round.Follows.reached [Source σ] {s : Scanner σ} {r : Round (Scanner σ) β}
    (h : r.Follows s) : r.state.window.Reached s.window := by
  cases r with
  | again => exact Window.After.reached h
  | done => exact h

/-- A round that has taken bytes follows. -/
theorem Round.follows_of_after [Source σ] {s : Scanner σ} {r : Round (Scanner σ) β}
    (h : r.state.window.After s.window) : r.Follows s := by
  cases r with
  | again => exact h
  | done => exact Window.After.reached h

/-- A round that follows a later state follows the earlier one. -/
theorem Round.Follows.trans_reached [Source σ] {s s₁ : Scanner σ} {r : Round (Scanner σ) β}
    (h : r.Follows s₁) (hs : s₁.window.Reached s.window) : r.Follows s := by
  cases r with
  | again => exact Window.After.trans_reached h hs
  | done => exact Window.Reached.trans h hs

/-- All rounds of a body follow the state they start in. -/
structure Advances [Source σ] (body : Scanner σ → Draft → Except Violation (Round (Scanner σ) β)) :
    Prop where
  /-- The outcome of a round follows the state before it. -/
  follows : ∀ {s d r}, body s d = .ok r → r.Follows s

/-- Such a body can be repeated. -/
theorem Advances.progresses [Source σ]
    {body : Scanner σ → Draft → Except Violation (Round (Scanner σ) β)} (h : Advances body) :
    Progresses body :=
  ⟨fun hbody => h.follows hbody⟩

/-- Its repetition does not go back. -/
theorem Advances.reached [Source σ]
    {body : Scanner σ → Draft → Except Violation (Round (Scanner σ) β)} (h : Advances body)
    {s s' : Scanner σ} {d : Draft} {b : β}
    (hok : repeatUntilDone body h.progresses s d = .ok (s', b)) :
    s'.window.Reached s.window := by
  refine repeatUntilDone_keeps (P := fun s₁ => s₁.window.Reached s.window)
    (Q := fun s₁ _ => s₁.window.Reached s.window) ?_ ?_ (Window.Reached.refl _) hok
  · intro s₁ d₁ s₂ d₂ hs hbody
    exact (h.follows hbody).reached.trans hs
  · intro s₁ d₁ s₂ b₁ hs hbody
    exact (h.follows hbody).reached.trans hs

/-- If its first round takes bytes, then so does the repetition. -/
theorem Advances.after [Source σ]
    {body : Scanner σ → Draft → Except Violation (Round (Scanner σ) β)} (h : Advances body)
    {s s' : Scanner σ} {d : Draft} {b : β}
    (hfirst : ∀ r, body s d = .ok r → r.state.window.After s.window)
    (hok : repeatUntilDone body h.progresses s d = .ok (s', b)) : s'.window.After s.window := by
  rw [repeatUntilDone_eq] at hok
  split at hok
  · cases hok
  · rename_i hbody
    cases hok
    exact hfirst _ hbody
  · rename_i hbody
    exact (h.reached hok).trans_after (hfirst _ hbody)

end Scanner

end Listfile
