import Listfile.Proofs.Lexeme
import Listfile.Proofs.Machine

/-!
# Every call ends, and so does every run

A machine repeats steps that may give no token and may consume nothing, each step repeats loops of its
own, and a source may be asked any number of times in any of them. Nothing of this goes on for ever.

* A call is a finite number of rounds (`Finishes`). Each of them but the last consumes bytes, so a
  call has at most one round more than it consumes bytes (`next_finishes`). A round is at most three
  steps of the machine, which is in its default mode after the last of them
  (`Machine.finishes_of_default`).
* Each request to the source but the last is answered with bytes, so there is at most one request
  more than bytes handed out (`Window.Path.answered`).
* A run gives finitely many tokens, each of which takes bytes, and from then on the end of the input,
  at the same position and without a further request (`Course`, `exists_course`).
-/

namespace Listfile

/-! ## Requests to the source -/

namespace Window

variable {σ : Type} [Source σ]

/-- Each request so far was answered with bytes, but for the one that has found the end. -/
def Answered (w : Window σ) : Prop :=
  w.refills.length ≤ w.delivered.length + w.exhausted.toNat

/-- A refill is one more request, and it brings bytes or finds the end. -/
theorem Move.answered {w w' : Window σ} {bytes : List UInt8} (move : Move w bytes w')
    (h : w.Answered) : w'.Answered := by
  cases move with
  | refill hopen _ =>
    obtain ⟨room, answer, -, -, hrefill⟩ := refill_of_open hopen
    unfold Answered at h ⊢
    rw [hopen, Bool.toNat_false] at h
    simp only [hrefill, Window.delivered, List.reverse_cons, List.flatMap_append,
      List.flatMap_singleton, List.length_append, List.length_cons]
    rw [Window.delivered] at h
    by_cases hnil : answer.1 = []
    · rw [hnil, List.isEmpty_nil, Bool.toNat_true, List.length_nil]
      omega
    · have hpos := List.length_pos_iff.2 hnil
      omega
  | take _ => exact h

/-- Along a path each request is answered with bytes, but for the last. -/
theorem Path.answered {w w' : Window σ} {bytes : List UInt8} (path : Path w bytes w')
    (h : w.Answered) : w'.Answered := by
  induction path with
  | stay w => exact h
  | step move _ ih => exact ih (move.answered h)

/-- Once the source has come to its end, no further request is made. -/
theorem Path.refills_of_exhausted {w w' : Window σ} {bytes : List UInt8} (path : Path w bytes w')
    (h : w.exhausted = true) : w'.refills = w.refills := by
  induction path with
  | stay w => rfl
  | step move _ ih =>
    cases move with
    | refill hopen _ =>
      rw [h] at hopen
      exact absurd hopen.symm Bool.false_ne_true
    | take _ => exact ih h

/-- On the way from a fresh window, the bytes handed out are those consumed and those unread. -/
theorem Path.length_delivered {source : σ} {capacity : Nat} {bytes : List UInt8} {w : Window σ}
    (path : Path (ofSource source capacity) bytes w) :
    w.delivered.length = w.taken + w.unread.length := by
  obtain ⟨fresh, hdelivered, hunread⟩ := path.delivered
  have htaken : w.taken = 0 + bytes.length := path.taken
  have hfresh : fresh = bytes ++ w.unread := hunread
  rw [hdelivered, hfresh, htaken, Nat.zero_add, ← List.length_append]
  rfl

end Window

namespace Scanner

variable {σ : Type} [Source σ]

/-! ## One call -/

/-- A call that gives a token consumes bytes. -/
theorem Scans.taken_lt {s s' : Scanner σ} {t : Token} (h : s.Scans t s')
    (hkind : t.kind ≠ .nothing) : s.window.taken < s'.window.taken := by
  obtain ⟨gap, lexeme, hcut⟩ := h.cut s'.window.ahead_unread
  have hpos := List.length_pos_iff.2 (hcut.lexeme.ne_nil hkind)
  rw [hcut.path.taken, List.length_append]
  omega

/-- A call at the end gives the end, stays there, and makes no request. -/
theorem Scans.of_atEnd {s s' : Scanner σ} {t : Token} (h : s.Scans t s') (hend : s.window.AtEnd) :
    t = ⟨.nothing, [], s.position⟩ ∧ s'.position = s.position ∧
      s'.window.refills = s.window.refills := by
  obtain ⟨bytes, hpath, -, hnext⟩ := h.agrees
  obtain ⟨rfl, hend'⟩ := hpath.of_atEnd hend
  have hrest : s'.window.Ahead [] := by
    have hahead := s'.window.ahead_unread
    rwa [hend'.unread] at hahead
  have hcall := hnext [] hrest
  rw [List.append_nil, segments, Context.nextToken] at hcall
  obtain ⟨htoken, hcontext⟩ := Prod.mk.inj hcall
  refine ⟨htoken.symm, ?_, hpath.refills_of_exhausted hend.exhausted⟩
  exact congrArg Context.position (Prod.mk.inj hcontext).1.symm

/-- A call that gives the end gives it without text, at the position where it leaves the scanner. -/
theorem Scans.eq_of_nothing {s s' : Scanner σ} {t : Token} (h : s.Scans t s')
    (hkind : t.kind = .nothing) : t = ⟨.nothing, [], s'.position⟩ := by
  induction h with
  | skip _ _ _ ih => exact ih hkind
  | found _ htoken => exact absurd hkind (Context.kind_ne_nothing_of_token? htoken)
  | ended hpass _ =>
    rw [hpass.position]
    rfl

/-! ## Runs -/

/-- One more call. -/
theorem after_succ (n : Nat) (s : Scanner σ) (d : Draft) :
    after (n + 1) s d = next (after n s d).1 (after n s d).2 :=
  after_add n 1 s d

/-- What that call does. -/
theorem after_scans (n : Nat) (s : Scanner σ) (d : Draft) :
    (after n s d).1.Scans (after (n + 1) s d).2.token (after (n + 1) s d).1 := by
  rw [after_succ]
  exact next_scans _ _

/-- Once at the end, a run stays there and gives nothing but the end. -/
theorem after_of_atEnd {s : Scanner σ} (hend : s.window.AtEnd) (d : Draft) (n : Nat) :
    (after n s d).1.window.AtEnd ∧ (after n s d).1.position = s.position ∧
      (after n s d).1.window.refills = s.window.refills ∧
      (after (n + 1) s d).2.token = ⟨.nothing, [], s.position⟩ := by
  induction n with
  | zero => exact ⟨hend, rfl, rfl, ((next_scans s d).of_atEnd hend).1⟩
  | succ n ih =>
    obtain ⟨hend', hposition, hrefills, -⟩ := ih
    obtain ⟨-, hposition', hrefills'⟩ := (after_scans n s d).of_atEnd hend'
    obtain ⟨bytes, hpath, -, -⟩ := (after_scans n s d).agrees
    have hend'' := (hpath.of_atEnd hend').2
    obtain ⟨htoken, -, -⟩ := (after_scans (n + 1) s d).of_atEnd hend''
    rw [hposition', hposition] at htoken
    exact ⟨hend'', hposition'.trans hposition, hrefills'.trans hrefills, htoken⟩

/-- There is a first call that gives the end. -/
theorem exists_first_nothing (s : Scanner σ) (d : Draft) :
    ∃ m, (after (m + 1) s d).2.kind = .nothing ∧
      ∀ n < m, (after (n + 1) s d).2.kind ≠ .nothing := by
  -- A call that gives another token than the end leaves a smaller window.
  fun_induction readings s d with
  | case1 s d r hkind => exact ⟨0, hkind, fun n hn => absurd hn (Nat.not_lt_zero n)⟩
  | case2 s d r hkind hafter more ih =>
    obtain ⟨m, hlast, hbefore⟩ := ih
    refine ⟨m + 1, hlast, ?_⟩
    intro n hn
    cases n with
    | zero => exact hkind
    | succ n => exact hbefore n (by omega)

/-- A run in which each of the first `n` calls gives a token has consumed as many bytes. -/
theorem le_taken_of_tokens {s : Scanner σ} {d : Draft} {n : Nat}
    (h : ∀ i < n, (after (i + 1) s d).2.kind ≠ .nothing) :
    n ≤ (after n s d).1.window.taken := by
  induction n with
  | zero => exact Nat.zero_le _
  | succ n ih =>
    have hbefore := ih fun i hi => h i (by omega)
    have hlt := (after_scans n s d).taken_lt (h n (Nat.lt_succ_self n))
    omega

/-- From a call that gives the end on, all calls give it at the same position, and no request is
made. -/
theorem after_of_nothing {s : Scanner σ} {d : Draft} {m n : Nat}
    (hlast : (after (m + 1) s d).2.kind = .nothing) (hle : m ≤ n) :
    (after (n + 1) s d).2.token = ⟨.nothing, [], (after (m + 1) s d).2.token.position⟩ ∧
      (after (n + 1) s d).1.position = (after (m + 1) s d).1.position ∧
      (after (n + 1) s d).1.window.refills = (after (m + 1) s d).1.window.refills := by
  have hfirst := (after_scans m s d).eq_of_nothing hlast
  rw [hfirst]
  rcases Nat.eq_or_lt_of_le hle with rfl | hlt
  · exact ⟨hfirst, rfl, rfl⟩
  · -- What comes after this call is a run that starts at the end.
    obtain ⟨k, rfl⟩ : ∃ k, n = m + 1 + k := ⟨n - (m + 1), by omega⟩
    have hstay := after_of_atEnd ((after_scans m s d).atEnd hlast) (after (m + 1) s d).2
    obtain ⟨-, -, -, htoken⟩ := hstay k
    obtain ⟨-, hposition, hrefills, -⟩ := hstay (k + 1)
    rw [← after_add] at htoken hposition hrefills
    exact ⟨htoken, hposition, hrefills⟩

/-- A call on the way from a fresh source gives the end only when every byte handed out has been
consumed. -/
theorem taken_of_nothing {settings : Settings} {source : σ} {d : Draft} {m : Nat}
    (hlast : (after (m + 1) (ofSource settings source) d).2.kind = .nothing) :
    (after (m + 1) (ofSource settings source) d).1.window.taken =
      (after (m + 1) (ofSource settings source) d).1.window.delivered.length := by
  have hend := (after_scans m (ofSource settings source) d).atEnd hlast
  obtain ⟨bytes, hpath⟩ := after_path (m + 1) (ofSource settings source) d
  rw [hpath.length_delivered, hend.unread]
  rfl

/-- A fresh source is asked at most once more than it hands out bytes. -/
theorem length_requests_le (settings : Settings) (source : σ) (d : Draft) (n : Nat) :
    (after n (ofSource settings source) d).1.window.requests.length ≤
      (after n (ofSource settings source) d).1.window.delivered.length + 1 := by
  obtain ⟨bytes, hpath⟩ := after_path n (ofSource settings source) d
  have hanswered := hpath.answered (Nat.zero_le _)
  have hbool := Bool.toNat_le (after n (ofSource settings source) d).1.window.exhausted
  unfold Window.Answered at hanswered
  rw [Window.requests, List.length_map, List.length_reverse]
  omega

/-- The course of a run with `m` tokens: the first `m` calls give these, and all later ones the end of
the input. -/
structure Course (s : Scanner σ) (d : Draft) (m : Nat) : Prop where
  /-- Every call ends, after at most one round more than it consumes bytes. -/
  ends : ∀ n, ∃ rounds,
    Finishes scanRound rounds (after n s d).1 (after n s d).2 (after (n + 1) s d).1
      (after (n + 1) s d).2 ∧
    (after n s d).1.window.taken + rounds ≤ (after (n + 1) s d).1.window.taken + 1
  /-- The machine, whatever level and kind of a bracket it remembers, comes to the end of the call after
  at most three steps more than two for each byte consumed, and is in its default mode then. -/
  machine : ∀ n level kind, ∃ steps m',
    Finishes Machine.step steps ⟨(after n s d).1, .default, level, kind⟩ (after n s d).2 m'
      (after (n + 1) s d).2 ∧
    m'.scanner = (after (n + 1) s d).1 ∧ m'.mode = .default ∧
    2 * (after n s d).1.window.taken + steps ≤ 2 * (after (n + 1) s d).1.window.taken + 3
  /-- The source is asked at most once more than it hands out bytes. -/
  requests : ∀ n, (after n s d).1.window.requests.length ≤
    (after n s d).1.window.delivered.length + 1
  /-- The calls that give a token are the first `m`. -/
  tokens : ∀ n, (after (n + 1) s d).2.kind ≠ .nothing ↔ n < m
  /-- Each of these consumes bytes. -/
  progress : ∀ n < m, (after n s d).1.window.taken < (after (n + 1) s d).1.window.taken
  /-- There are no more tokens than bytes handed out. -/
  few : m ≤ (after (m + 1) s d).1.window.delivered.length
  /-- When the end is given first, every byte handed out has been consumed. -/
  consumed : (after (m + 1) s d).1.window.taken =
    (after (m + 1) s d).1.window.delivered.length
  /-- From then on the end is given at the same position, and no request is made. -/
  still : ∀ n, m ≤ n →
    (after (n + 1) s d).2.token = ⟨.nothing, [], (after (m + 1) s d).2.token.position⟩ ∧
    (after (n + 1) s d).1.position = (after (m + 1) s d).1.position ∧
    (after (n + 1) s d).1.window.requests = (after (m + 1) s d).1.window.requests

/-- Every source is read to its end, whatever its answers, the settings and the draft. -/
theorem exists_course (settings : Settings) (source : σ) (d : Draft) :
    ∃ m, Course (ofSource settings source) d m := by
  obtain ⟨m, hlast, hbefore⟩ := exists_first_nothing (ofSource settings source) d
  refine ⟨m, ?_, ?_, length_requests_le settings source d, ?_, ?_, ?_, taken_of_nothing hlast, ?_⟩
  · intro n
    rw [after_succ]
    exact next_finishes _ _
  · intro n level kind
    rw [after_succ]
    exact Machine.finishes_of_default rfl _
  · intro n
    refine ⟨fun hkind => ?_, hbefore n⟩
    apply Nat.lt_of_not_le
    intro hle
    exact hkind (congrArg Token.kind (after_of_nothing hlast hle).1)
  · intro n hn
    exact (after_scans n _ d).taken_lt (hbefore n hn)
  · have hcount := le_taken_of_tokens hbefore
    obtain ⟨bytes, hpath, -, -⟩ := (after_scans m (ofSource settings source) d).agrees
    rw [← taken_of_nothing hlast, hpath.taken]
    omega
  · intro n hle
    obtain ⟨htoken, hposition, hrefills⟩ := after_of_nothing hlast hle
    refine ⟨htoken, hposition, ?_⟩
    rw [Window.requests, Window.requests, hrefills]

end Scanner

end Listfile
