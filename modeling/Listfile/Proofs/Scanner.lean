import Listfile.Proofs.Window
import Listfile.Scanner

/-!
# What the operations of a scanner do

Consuming bytes and moving the position are two things, and a scanner does them at different times.

* `s.Consumes bytes s'`: the window has gone along a path over the bytes, and everything else is as it
  was. In particular the position is left behind. Looking ahead and consuming are of this sort
  (`peek_zero_consumes`, `peek_one_consumes`, `front_ok`, `take_ok`, `takeRun_ok`), and none of them
  runs into a violation when it is used as the scanning functions use it.
* `s.Passes bytes s'`: the position has also advanced over these bytes. What has been consumed is
  passed if the move that follows is the right one: to the right by the number of bytes if there is no
  newline among them (`Consumes.right`), and to the next line if the last of them is the only one
  (`Consumes.nextLine`).

Scanning functions repeat a body. `repeatUntilDone_rule` is the one induction over these
repetitions: a relation between the state at the start and the state at the end holds of the whole
if each round hands it on. `Finishes` counts the rounds.
-/

namespace Listfile.Scanner

/-- A byte that is not of a class is not among bytes that are. -/
theorem not_mem_of_all {p : UInt8 → Bool} {run : List UInt8} {c : UInt8}
    (h : ∀ b ∈ run, p b = true) (hc : p c = false) : c ∉ run := by
  intro hmem
  rw [h c hmem] at hc
  cases hc

/-- A backslash and a byte other than a newline hold no newline. -/
theorem newline_not_mem_pair {c : UInt8} (h : c ≠ Byte.newline) :
    Byte.newline ∉ [Byte.backslash, c] := by
  simp only [List.mem_cons, List.not_mem_nil, or_false, not_or]
  exact ⟨by decide, h.symm⟩

variable {σ : Type} [Source σ]

/-! ## Consuming and passing bytes -/

/-- The scanner `s` becomes `s'` by passing `bytes`. -/
structure Passes (s : Scanner σ) (bytes : List UInt8) (s' : Scanner σ) : Prop where
  /-- The window has gone along a path over the bytes. -/
  path : s.window.Path bytes s'.window
  /-- The position has advanced over the bytes. -/
  position : s'.position = s.position.advance bytes
  /-- As many parentheses are open as before. -/
  depth : s'.depth = s.depth
  /-- Blank runs are tokens if they were before. -/
  emitSpace : s'.emitSpace = s.emitSpace

/-- The scanner `s` becomes `s'` by consuming `bytes`, with the position left where they begin. -/
structure Consumes (s : Scanner σ) (bytes : List UInt8) (s' : Scanner σ) : Prop where
  /-- The window has gone along a path over the bytes. -/
  path : s.window.Path bytes s'.window
  /-- The position has not moved. -/
  position : s'.position = s.position
  /-- As many parentheses are open as before. -/
  depth : s'.depth = s.depth
  /-- Blank runs are tokens if they were before. -/
  emitSpace : s'.emitSpace = s.emitSpace

/-- A scanner that does nothing passes nothing. -/
theorem Passes.refl (s : Scanner σ) : s.Passes [] s :=
  ⟨.stay _, rfl, rfl, rfl⟩

/-- Passing some bytes and then others is passing both. -/
theorem Passes.trans {s s₁ s' : Scanner σ} {bytes more : List UInt8} (first : s.Passes bytes s₁)
    (second : s₁.Passes more s') : s.Passes (bytes ++ more) s' := by
  refine ⟨first.path.trans second.path, ?_, ?_, ?_⟩
  · rw [second.position, first.position, Position.advance_append]
  · rw [second.depth, first.depth]
  · rw [second.emitSpace, first.emitSpace]

/-- What can lie ahead after passing bytes could lie ahead before, after these bytes. -/
theorem Passes.ahead {s s' : Scanner σ} {bytes rest : List UInt8} (h : s.Passes bytes s')
    (hrest : s'.window.Ahead rest) : s.window.Ahead (bytes ++ rest) :=
  h.path.ahead hrest

/-- Consuming some bytes and then others is consuming both. -/
theorem Consumes.trans {s s₁ s' : Scanner σ} {bytes more : List UInt8} (first : s.Consumes bytes s₁)
    (second : s₁.Consumes more s') : s.Consumes (bytes ++ more) s' := by
  refine ⟨first.path.trans second.path, ?_, ?_, ?_⟩
  · rw [second.position, first.position]
  · rw [second.depth, first.depth]
  · rw [second.emitSpace, first.emitSpace]

/-- What has consumed nothing has passed nothing. -/
theorem Consumes.passes_nil {s s' : Scanner σ} (h : s.Consumes [] s') : s.Passes [] s' :=
  ⟨h.path, h.position, h.depth, h.emitSpace⟩

/-- Bytes without a newline have been passed after a move to the right by their number. -/
theorem Consumes.right {s s' : Scanner σ} {bytes : List UInt8} (h : s.Consumes bytes s')
    (hline : Byte.newline ∉ bytes) : s.Passes bytes (s'.right bytes.length) := by
  refine ⟨h.path, ?_, h.depth, h.emitSpace⟩
  rw [Position.advance_eq_right hline, ← h.position]
  rfl

/-- Bytes up to a newline have been passed after a move to the next line. -/
theorem Consumes.nextLine {s s' : Scanner σ} {bytes : List UInt8}
    (h : s.Consumes (bytes ++ [Byte.newline]) s') (hline : Byte.newline ∉ bytes) :
    s.Passes (bytes ++ [Byte.newline]) s'.nextLine := by
  refine ⟨h.path, ?_, h.depth, h.emitSpace⟩
  rw [Position.advance_concat_newline hline, ← h.position]
  rfl

/-- A newline alone has been passed after a move to the next line. -/
theorem Consumes.nextLine_of_newline {s s' : Scanner σ} (h : s.Consumes [Byte.newline] s') :
    s.Passes [Byte.newline] s'.nextLine := by
  rw [← List.nil_append [Byte.newline]] at h ⊢
  exact h.nextLine List.not_mem_nil

/-! ## Looking -/

/-- Looking at the next byte consumes nothing, and afterwards the byte is ready. -/
theorem peek_zero_consumes (s : Scanner σ) :
    s.Consumes [] (s.peek 0).2 ∧ (s.peek 0).2.window.Ready 1 :=
  ⟨⟨s.window.demand_one_path, rfl, rfl, rfl⟩, Window.demand_ready (by omega)⟩

/-- Looking at the byte after a backslash consumes nothing, and afterwards both bytes are ready. -/
theorem peek_one_consumes {s : Scanner σ} (hhead : s.window.unread.head? = some Byte.backslash) :
    s.Consumes [] (s.peek 1).2 ∧ (s.peek 1).2.window.Ready 2 := by
  obtain ⟨later, hlater⟩ := List.head?_eq_some_iff.1 hhead
  refine ⟨⟨Window.demand_two_path hhead, rfl, rfl, rfl⟩, Window.demand_ready ?_⟩
  rw [hlater, List.length_cons]
  omega

/-- What a window holds, seen as bytes of a class and what stops them. -/
inductive Front (p : UInt8 → Bool) (w : Window σ) : List UInt8 → Option UInt8 → Prop where
  /-- Nothing is left. -/
  | ended (atEnd : w.AtEnd) : Front p w [] none
  /-- All bytes held are of the class. -/
  | whole {run : List UInt8} (ne : run ≠ []) (all : ∀ b ∈ run, p b = true)
      (unread : w.unread = run) : Front p w run none
  /-- A byte held is not of the class. -/
  | stopped {run later : List UInt8} {stop : UInt8} (all : ∀ b ∈ run, p b = true)
      (other : p stop = false) (unread : w.unread = run ++ stop :: later) :
      Front p w run (some stop)

/-- Looking at the front consumes nothing, and tells which of these it is. -/
theorem front_ok (s : Scanner σ) (p : UInt8 → Bool) :
    ∃ run stop s', s.front p = (run, stop, s') ∧ s.Consumes [] s' ∧ Front p s'.window run stop := by
  refine ⟨_, _, _, rfl, ⟨s.window.demand_one_path, rfl, rfl, rfl⟩, ?_⟩
  show Front p (s.window.demand 1) _ _
  have hready : (s.window.demand 1).Ready 1 := Window.demand_ready (by omega)
  generalize s.window.demand 1 = w at hready ⊢
  have hall : ∀ b ∈ w.unread.takeWhile p, p b = true := fun b hb =>
    List.all_eq_true.1 List.all_takeWhile b hb
  have hsplit := List.takeWhile_append_dropWhile (p := p) (l := w.unread)
  have hnot := List.head?_dropWhile_not p w.unread
  cases hdrop : w.unread.dropWhile p with
  | nil =>
    rw [hdrop, List.append_nil] at hsplit
    cases hunread : w.unread with
    | nil =>
      refine .ended ⟨hunread, hready.resolve_left ?_⟩
      rw [hunread]
      decide
    | cons b later =>
      rw [hunread] at hsplit hall
      refine .whole ?_ hall (hunread.trans hsplit.symm)
      rw [hsplit]
      exact List.cons_ne_nil b later
  | cons stop later =>
    rw [hdrop] at hsplit hnot
    exact .stopped hall (by simpa using hnot) hsplit.symm

/-! ## Consuming -/

/-- Consuming bytes that are held succeeds. -/
theorem take_ok {s : Scanner σ} {bytes later : List UInt8}
    (h : s.window.unread = bytes ++ later) :
    ∃ s', s.take bytes.length = .ok (bytes, s') ∧ s.Consumes bytes s' ∧
      s'.window.unread = later ∧ s'.window.exhausted = s.window.exhausted := by
  have hlength : bytes.length ≤ s.window.unread.length := by
    rw [h, List.length_append]
    omega
  obtain ⟨w', hok, hpath, hunread, hended⟩ := Window.take_ok hlength
  rw [h, List.take_left] at hok hpath
  rw [h, List.drop_left] at hunread
  exact ⟨_, take_eq_ok.2 ⟨w', hok, rfl⟩, ⟨hpath, rfl, rfl, rfl⟩, hunread, hended⟩

/-- After looking, bytes without a newline are passed by consuming them and moving to the right. -/
theorem Consumes.take_right {s s₁ : Scanner σ} {run later : List UInt8} (hlook : s.Consumes [] s₁)
    (hunread : s₁.window.unread = run ++ later) (hline : Byte.newline ∉ run) :
    ∃ s', s₁.take run.length = .ok (run, s') ∧ s.Passes run (s'.right run.length) ∧
      s'.window.unread = later := by
  obtain ⟨s', hok, hconsumes, hlater, -⟩ := take_ok hunread
  exact ⟨s', hok, (hlook.trans hconsumes).right hline, hlater⟩

/-- Consuming the next byte succeeds if it is held. -/
theorem take_one_ok {s : Scanner σ} {b : UInt8} (hhead : s.window.unread.head? = some b) :
    ∃ s', s.take 1 = .ok ([b], s') ∧ s.Consumes [b] s' ∧
      s'.window.unread = s.window.unread.tail ∧ s'.window.exhausted = s.window.exhausted := by
  obtain ⟨later, hlater⟩ := List.head?_eq_some_iff.1 hhead
  have hsplit : s.window.unread = [b] ++ later := hlater
  rw [hlater, List.tail_cons]
  exact take_ok hsplit

/-- Consuming the next two bytes succeeds if they are held. -/
theorem take_two_ok {s : Scanner σ} {b c : UInt8} (hhead : s.window.unread.head? = some b)
    (hnext : s.window.unread[1]? = some c) :
    ∃ s', s.take 2 = .ok ([b, c], s') ∧ s.Consumes [b, c] s' := by
  obtain ⟨later, hlater⟩ := List.head?_eq_some_iff.1 hhead
  rw [hlater, List.getElem?_cons_succ, ← List.head?_eq_getElem?] at hnext
  obtain ⟨more, rfl⟩ := List.head?_eq_some_iff.1 hnext
  have hsplit : s.window.unread = [b, c] ++ more := hlater
  obtain ⟨s', hok, hconsumes, -, -⟩ := take_ok hsplit
  exact ⟨s', hok, hconsumes⟩

/-- Consuming the bytes up to one that is held, and that one with them, succeeds. -/
theorem take_succ_ok {s : Scanner σ} {run later : List UInt8} {stop : UInt8}
    (h : s.window.unread = run ++ stop :: later) :
    ∃ s', s.take (run.length + 1) = .ok (run ++ [stop], s') ∧ s.Consumes (run ++ [stop]) s' := by
  rw [List.append_cons] at h
  obtain ⟨s', hok, hconsumes, -, -⟩ := take_ok h
  rw [List.length_append, List.length_singleton] at hok
  exact ⟨s', hok, hconsumes⟩

/-- Consuming the longest run of one class succeeds. -/
theorem takeRun_ok (s : Scanner σ) (p : UInt8 → Bool) :
    ∃ run s', s.takeRun p = .ok (run, s') ∧ s.Consumes run s' ∧
      Window.Run p s.window run s'.window := by
  obtain ⟨run, w', hok, hrun⟩ := s.window.takeRun_ok p
  exact ⟨run, _, takeRun_eq_ok.2 ⟨w', hok, rfl⟩, ⟨hrun.path, rfl, rfl, rfl⟩, hrun⟩

/-! ## Repetition -/

section Repetition

variable {α β : Type}

/-- A round hands a relation between start and end on: the relation holds at its end, or it holds
for the whole whenever it holds for the rounds to come. -/
def Round.HandsOn (R : α → Draft → α → β → Prop) (a : α) (d : Draft) : Round α β → Prop
  | again a₁ d₁ => ∀ a' b, R a₁ d₁ a' b → R a d a' b
  | done a' b => R a d a' b

/-- What a round hands on from a later state, it hands on from an earlier one that the relation goes
back to. -/
theorem Round.HandsOn.imp {R : α → Draft → α → β → Prop} {a a₁ : α} {d d₁ : Draft} {r : Round α β}
    (h : r.HandsOn R a₁ d₁) (hback : ∀ a' b, R a₁ d₁ a' b → R a d a' b) : r.HandsOn R a d := by
  cases r with
  | again => exact fun a' b hR => hback a' b (h a' b hR)
  | done => exact hback _ _ h

/-- The body comes to its result in the round with the given number, counted from one. -/
inductive Finishes (body : α → Draft → Except Violation (Round α β)) :
    Nat → α → Draft → α → β → Prop where
  /-- The first round finishes. -/
  | done {a a' : α} {d : Draft} {b : β} (round : body a d = .ok (.done a' b)) :
      Finishes body 1 a d a' b
  /-- The first round asks for another one. -/
  | again {n : Nat} {a a₁ a' : α} {d d₁ : Draft} {b : β}
      (round : body a d = .ok (.again a₁ d₁)) (later : Finishes body n a₁ d₁ a' b) :
      Finishes body (n + 1) a d a' b

variable [WellFoundedRelation α]

/-- A relation that every round hands on holds between start and end of the repetition, and the
repetition has an end. -/
theorem repeatUntilDone_rule {body : α → Draft → Except Violation (Round α β)}
    (progress : Progresses body) {R : α → Draft → α → β → Prop}
    (step : ∀ a d, ∃ r, body a d = .ok r ∧ r.HandsOn R a d) (a : α) (d : Draft) :
    ∃ a' b, repeatUntilDone body progress a d = .ok (a', b) ∧ R a d a' b := by
  fun_induction repeatUntilDone body progress a d with
  | case1 a d v hbody =>
    obtain ⟨r, hok, -⟩ := step a d
    rw [hbody] at hok
    cases hok
  | case2 a d a' b hbody =>
    obtain ⟨r, hok, hR⟩ := step a d
    rw [hbody] at hok
    cases hok
    exact ⟨a', b, rfl, hR⟩
  | case3 a d a₁ d₁ hbody _ ih =>
    obtain ⟨r, hok, hR⟩ := step a d
    rw [hbody] at hok
    cases hok
    obtain ⟨a', b, hrun, hend⟩ := ih
    exact ⟨a', b, hrun, hR a' b hend⟩

/-- What comes out in some round is the result of the repetition. -/
theorem Finishes.repeatUntilDone_eq {body : α → Draft → Except Violation (Round α β)} {n : Nat}
    {a a' : α} {d : Draft} {b : β} (h : Finishes body n a d a' b) (progress : Progresses body) :
    repeatUntilDone body progress a d = .ok (a', b) := by
  induction h with
  | done round => rw [Scanner.repeatUntilDone_eq, round]
  | again round _ ih =>
    rw [Scanner.repeatUntilDone_eq, round]
    exact ih

end Repetition

end Listfile.Scanner
