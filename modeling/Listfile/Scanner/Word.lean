import Listfile.Scanner

/-!
# Scanning bare words

A bare word is read in rounds. A round takes the bare bytes at the front of those held. If they are
all that is held, the next round goes on behind them. If another byte stops them, the word ends
there, unless it is a backslash that escapes the byte after it; then both belong to the word.
-/

namespace Listfile.Scanner

variable {σ : Type}

/-- Whether a byte can stand after a backslash in a bare word: there is one, and it is not a
newline. -/
def isEscapable (byte : Option UInt8) : Bool :=
  byte.any (· != Byte.newline)

/-- The word ends here; its kind depends on the parentheses around it. -/
def finishWord (s : Scanner σ) (d : Draft) : Round (Scanner σ) Draft :=
  .done s (d.finish (Kind.ofWord s.depth d.text))

/-- What a byte that is not bare does to a word. -/
def wordStop [Source σ] (stop : UInt8) (s : Scanner σ) (d : Draft) :
    Except Violation (Round (Scanner σ) Draft) :=
  if stop = Byte.backslash then
    let (escaped, s) := s.peek 1
    if isEscapable escaped then do
      let (pair, s) ← s.take 2
      return .again (s.right 2) (d.append pair)
    else return finishWord s d
  else return finishWord s d

/-- The bare bytes at the front, and what stops them. -/
def wordRound [Source σ] (s : Scanner σ) (d : Draft) :
    Except Violation (Round (Scanner σ) Draft) := do
  let (run, stop, s) := s.front Byte.isBare
  let d := d.append run
  let (_, s) ← s.take run.length
  let s := s.right run.length
  match stop with
  | none => return if run = [] then finishWord s d else .again s d
  | some stop => wordStop stop s d

theorem wordStop_follows [Source σ] {stop : UInt8} {s : Scanner σ} {d : Draft}
    {r : Round (Scanner σ) Draft} (h : wordStop stop s d = .ok r) : r.Follows s := by
  unfold wordStop at h
  split at h
  · dsimp only at h
    split at h
    · simp only [bind_eq_ok, Prod.exists] at h
      obtain ⟨_, s₁, hpair, h⟩ := h
      cases h
      exact (take_after (by decide) hpair).trans_reached (s.peek_reached 1)
    · cases h
      exact s.peek_reached 1
  · cases h
    exact Window.Reached.refl _

theorem wordRound_advances [Source σ] : Advances (@wordRound σ _) := by
  refine ⟨fun {s d r} h => ?_⟩
  have ahead := s.front_reached Byte.isBare
  simp only [wordRound, bind_eq_ok, Prod.exists] at h
  obtain ⟨_, s₁, htake, h⟩ := h
  split at h
  · split at h
    · cases h
      exact (take_reached htake).trans ahead
    · rename_i hrun
      cases h
      exact (take_length_after hrun htake).trans_reached ahead
  · exact (wordStop_follows h).trans_reached ((take_reached htake).trans ahead)

/-- The rest of the bare word that the draft holds the start of. -/
def word [Source σ] (s : Scanner σ) (d : Draft) : Except Violation (Scanner σ × Draft) :=
  repeatUntilDone wordRound wordRound_advances.progresses s d

/-! ## Where a word begins -/

theorem word_reached [Source σ] {s s' : Scanner σ} {d d' : Draft}
    (h : word s d = .ok (s', d')) : s'.window.Reached s.window :=
  wordRound_advances.reached h

/-- A word that begins with a bare byte takes bytes. -/
theorem word_after_of_isBare [Source σ] {s s' : Scanner σ} {d d' : Draft} {b : UInt8}
    (hhead : s.window.unread.head? = some b) (hbare : Byte.isBare b = true)
    (h : word s d = .ok (s', d')) : s'.window.After s.window := by
  refine wordRound_advances.after (fun r hround => ?_) h
  obtain ⟨later, hlater⟩ := List.head?_eq_some_iff.1 hhead
  simp only [wordRound, front_of_head hhead, hlater, List.takeWhile_cons_of_pos hbare, bind_eq_ok,
    Prod.exists] at hround
  obtain ⟨_, s₁, htake, hround⟩ := hround
  have after : s₁.window.After s.window := take_after (Nat.succ_pos _) htake
  split at hround
  · cases hround
    exact after
  · exact (wordStop_follows hround).reached.trans_after after

/-- A word that begins with a backslash and a byte that it can escape takes bytes. -/
theorem word_after_of_isEscapable [Source σ] {s s' : Scanner σ} {d d' : Draft}
    (hhead : s.window.unread.head? = some Byte.backslash)
    (hpair : isEscapable s.window.unread[1]? = true) (h : word s d = .ok (s', d')) :
    s'.window.After s.window := by
  refine wordRound_advances.after (fun r hround => ?_) h
  have hfront : s.front Byte.isBare = ([], some Byte.backslash, s) := by
    obtain ⟨later, hlater⟩ := List.head?_eq_some_iff.1 hhead
    rw [front_of_head hhead, hlater]
    rfl
  obtain ⟨c, hsecond⟩ : ∃ c, s.window.unread[1]? = some c := by
    cases hsecond : s.window.unread[1]? with
    | none =>
      rw [hsecond] at hpair
      cases hpair
    | some c => exact ⟨c, rfl⟩
  have hstop : wordRound s d = wordStop Byte.backslash s (d.append []) := by
    simp only [wordRound, hfront, List.length_nil]
    rw [take_zero]
    rfl
  rw [hsecond] at hpair
  rw [hstop, wordStop, if_pos rfl, peek_of_getElem? hsecond] at hround
  simp only [hpair, if_true, bind_eq_ok, Prod.exists] at hround
  obtain ⟨_, s₁, htake, hround⟩ := hround
  have after : s₁.window.After s.window := take_after Nat.two_pos htake
  cases hround
  exact after

end Listfile.Scanner
