import Listfile.Proofs.Progress
import Listfile.Source.Memory

/-!
# What is left in a draft does not matter

The draft that a call is given may hold anything: the last token, the bytes of an opener that was not
finished and turned out to belong to a comment, or what somebody else has put there. No call looks at
it. The token given and the scanner left are the same for all drafts, so drafts may be exchanged
between any two calls (`draftBlind`).

* `Draft.Alike`: the same text from the same start. Kind and storage may differ.
* `Agree`: two computations run into the same violation, or both give results, and these are related.
* `Round.Alike`: two rounds do the same with drafts that are related afterwards, or come to related
  results.
* `Mode.Alike`: what the drafts of a machine must have in common, which depends on its mode.

One lemma for each function of the scanner says that drafts which are alike make no difference to it.
A function that begins a token may be given any two drafts, for beginning a token makes them alike
(`Draft.start_alike`). So may a step from the default mode (`enter_agree`), and inside of a token the
drafts stay alike from step to step (`Machine.step_agree`). Hence a whole call from the default mode
does the same with any two drafts, and leaves the same machine (`Machine.run_agree`).
-/

namespace Listfile

/-! ## Drafts -/

namespace Draft

/-- The drafts hold the same text, and it starts at the same position. -/
structure Alike (d e : Draft) : Prop where
  /-- The texts are the same. -/
  text : d.text = e.text
  /-- The positions are the same. -/
  position : d.position = e.position

/-- Beginning a token makes any two drafts alike. -/
theorem start_alike (d e : Draft) (p : Position) : (d.start p).Alike (e.start p) :=
  ⟨rfl, rfl⟩

/-- Putting the same text in leaves drafts alike. -/
theorem Alike.set {d e : Draft} (h : d.Alike e) (bytes : List UInt8) :
    (d.set bytes).Alike (e.set bytes) :=
  ⟨rfl, h.position⟩

/-- Putting the same bytes after the text leaves drafts alike. -/
theorem Alike.append {d e : Draft} (h : d.Alike e) (bytes : List UInt8) :
    (d.append bytes).Alike (e.append bytes) := by
  refine ⟨?_, h.position⟩
  rw [text_append, text_append, h.text]

/-- Drafts that are alike give the same token when they are finished with the same kind. -/
theorem Alike.token_finish {d e : Draft} (h : d.Alike e) (kind : Kind) :
    (d.finish kind).token = (e.finish kind).token := by
  rw [token, token, text_finish, text_finish, position_finish, position_finish, h.text, h.position]
  rfl

end Draft

/-! ## Agreement -/

/-- Both computations run into the same violation, or both give results and `R` relates these. -/
inductive Agree {α β : Type} (R : α → β → Prop) :
    Except Violation α → Except Violation β → Prop where
  /-- The violation is the same. -/
  | error (v : Violation) : Agree R (.error v) (.error v)
  /-- The results are related. -/
  | ok {a : α} {b : β} (related : R a b) : Agree R (.ok a) (.ok b)

/-- Computations that agree go on to agree if they do so from related results. -/
theorem Agree.bind {α β α' β' : Type} {R : α → β → Prop} {R' : α' → β' → Prop}
    {x : Except Violation α} {y : Except Violation β} {f : α → Except Violation α'}
    {g : β → Except Violation β'} (h : Agree R x y) (hnext : ∀ a b, R a b → Agree R' (f a) (g b)) :
    Agree R' (x >>= f) (y >>= g) := by
  cases h with
  | error v => exact .error v
  | ok hrelated => exact hnext _ _ hrelated

/-- Computations that begin with the same one agree if they do so from each of its results. -/
theorem agree_bind_same {α α' β' : Type} {R' : α' → β' → Prop} (x : Except Violation α)
    {f : α → Except Violation α'} {g : α → Except Violation β'}
    (hnext : ∀ a, Agree R' (f a) (g a)) : Agree R' (x >>= f) (x >>= g) := by
  cases x with
  | error v => exact .error v
  | ok a => exact hnext a

/-- Taking off bytes is possible from both or from neither of two drafts that are alike, and leaves
them alike. -/
theorem Draft.Alike.strip {d e : Draft} (h : d.Alike e) (n : Nat) :
    Agree Draft.Alike (d.strip n) (e.strip n) := by
  have hsize : d.body.size = e.body.size := congrArg List.length h.text
  unfold Draft.strip
  rw [hsize]
  split
  · refine .ok ⟨?_, h.position⟩
    rw [text_dropLast, text_dropLast, h.text]
  · exact .error _

namespace Scanner

/-! ## Loops -/

section Repetition

variable {α β : Type}

/-- The states are the same, and `Q` relates what comes with them. -/
def SameState (Q : β → β → Prop) (x y : α × β) : Prop :=
  x.1 = y.1 ∧ Q x.2 y.2

/-- The drafts hold the same token. -/
def SameToken (d e : Draft) : Prop :=
  d.token = e.token

/-- The rounds are both to be followed by another one, from the same state and with drafts that `R`
relates there, or both are the last, with the same state and results that `Q` relates. -/
inductive Round.Alike (R : α → Draft → Draft → Prop) (Q : β → β → Prop) :
    Round α β → Round α β → Prop where
  /-- Another round follows. -/
  | again (a : α) {d e : Draft} (related : R a d e) : Alike R Q (.again a d) (.again a e)
  /-- This was the last round. -/
  | done (a : α) {b c : β} (related : Q b c) : Alike R Q (.done a b) (.done a c)

/-- If every round does the same with related drafts, then so do all rounds together. -/
theorem repeatUntilDone_agree [WellFoundedRelation α] {R : α → Draft → Draft → Prop}
    {Q : β → β → Prop} {body : α → Draft → Except Violation (Round α β)}
    {progress : Progresses body}
    (hbody : ∀ a d e, R a d e → Agree (Round.Alike R Q) (body a d) (body a e)) (a : α)
    {d e : Draft} (h : R a d e) :
    Agree (SameState Q) (repeatUntilDone body progress a d)
      (repeatUntilDone body progress a e) := by
  rw [repeatUntilDone_eq body progress a e]
  -- The rounds from `d` are followed, and those from `e` keep pace.
  fun_induction repeatUntilDone body progress a d generalizing e with
  | case1 a d v hround =>
    have hsame := hbody a d e h
    rw [hround] at hsame
    generalize body a e = round at hsame ⊢
    cases hsame with
    | error v => exact .error v
  | case2 a d a' b hround =>
    have hsame := hbody a d e h
    rw [hround] at hsame
    generalize body a e = round at hsame ⊢
    cases hsame with
    | ok hrelated =>
      cases hrelated with
      | done a' hresults => exact .ok ⟨rfl, hresults⟩
  | case3 a d a' d' hround _ ih =>
    have hsame := hbody a d e h
    rw [hround] at hsame
    generalize body a e = round at hsame ⊢
    cases hsame with
    | ok hrelated =>
      cases hrelated with
      | @again a' d' e' hdrafts =>
        have hlater := ih hdrafts
        rw [← repeatUntilDone_eq] at hlater
        exact hlater

end Repetition

variable {σ : Type}

/-- Rounds inside of a token, from drafts that are alike to the same token. -/
def TokenRound : Round (Scanner σ) Draft → Round (Scanner σ) Draft → Prop :=
  Round.Alike (fun _ => Draft.Alike) SameToken

/-- A word that ends is the same token for drafts that are alike. -/
theorem finishWord_alike (s : Scanner σ) {d e : Draft} (h : d.Alike e) :
    TokenRound (finishWord s d) (finishWord s e) := by
  unfold finishWord
  rw [h.text]
  exact .done s (h.token_finish _)

variable [Source σ]

/-! ## Words, quotes, brackets and gaps -/

theorem wordStop_agree (stop : UInt8) (s : Scanner σ) {d e : Draft} (h : d.Alike e) :
    Agree TokenRound (wordStop stop s d) (wordStop stop s e) := by
  unfold wordStop
  split
  · dsimp only
    split
    · refine agree_bind_same _ ?_
      rintro ⟨pair, s₁⟩
      exact .ok (.again _ (h.append pair))
    · exact .ok (finishWord_alike _ h)
  · exact .ok (finishWord_alike _ h)

theorem wordRound_agree (s : Scanner σ) {d e : Draft} (h : d.Alike e) :
    Agree TokenRound (wordRound s d) (wordRound s e) := by
  unfold wordRound
  refine agree_bind_same _ ?_
  rintro ⟨_, s₁⟩
  have hrun := h.append (s.front Byte.isBare).1
  dsimp only
  split
  · split
    · exact .ok (finishWord_alike _ hrun)
    · exact .ok (.again _ hrun)
  · exact wordStop_agree _ _ hrun

theorem quotedStop_agree (stop : UInt8) (s : Scanner σ) {d e : Draft} (h : d.Alike e) :
    Agree TokenRound (quotedStop stop s d) (quotedStop stop s e) := by
  unfold quotedStop
  split
  · refine agree_bind_same _ ?_
    rintro ⟨_, s₁⟩
    exact .ok (.done _ (h.token_finish _))
  split
  · refine agree_bind_same _ ?_
    rintro ⟨newline, s₁⟩
    exact .ok (.again _ (h.append newline))
  dsimp only
  split
  · refine agree_bind_same _ ?_
    rintro ⟨backslash, s₁⟩
    exact .ok (.again _ (h.append backslash))
  · refine agree_bind_same _ ?_
    rintro ⟨pair, s₁⟩
    dsimp only
    split
    · exact .ok (.again _ h)
    · exact .ok (.again _ (h.append pair))

theorem quotedRound_agree (s : Scanner σ) {d e : Draft} (h : d.Alike e) :
    Agree TokenRound (quotedRound s d) (quotedRound s e) := by
  unfold quotedRound
  have hrun := h.append (s.front isPlainInQuotes).1
  dsimp only
  split
  · split
    · exact .ok (.done _ (h.token_finish _))
    · refine agree_bind_same _ ?_
      rintro ⟨_, s₁⟩
      exact .ok (.again _ hrun)
  · refine agree_bind_same _ ?_
    rintro ⟨_, s₁⟩
    exact quotedStop_agree _ _ hrun

/-- The bodies are both closed and alike, or both not closed and the same token. -/
inductive SameBody : Draft × Bool → Draft × Bool → Prop where
  /-- Both are closed. -/
  | closed {d e : Draft} (alike : d.Alike e) : SameBody (d, true) (e, true)
  /-- Neither is closed. -/
  | unclosed {d e : Draft} (same : d.token = e.token) : SameBody (d, false) (e, false)

theorem bracketCandidate_agree (level : Nat) (s : Scanner σ) {d e : Draft} (h : d.Alike e) :
    Agree (Round.Alike (fun _ => Draft.Alike) SameBody) (bracketCandidate level s d)
      (bracketCandidate level s e) := by
  refine agree_bind_same _ ?_
  rintro ⟨signs, s₁⟩
  have hsigns := h.append signs
  dsimp only
  split
  · refine agree_bind_same _ ?_
    rintro ⟨last, s₂⟩
    exact .ok (.done _ (.closed (hsigns.append last)))
  · exact .ok (.again _ hsigns)

theorem bracketRound_agree (level : Nat) (s : Scanner σ) {d e : Draft} (h : d.Alike e) :
    Agree (Round.Alike (fun _ => Draft.Alike) SameBody) (bracketRound level s d)
      (bracketRound level s e) := by
  unfold bracketRound
  dsimp only
  split
  · split
    · exact .ok (.done _ (.unclosed (h.token_finish _)))
    · refine agree_bind_same _ ?_
      rintro ⟨_, s₁⟩
      exact .ok (.again _ (h.append _))
  · refine agree_bind_same _ ?_
    rintro ⟨text, s₁⟩
    dsimp only
    split
    · exact .ok (.again _ (h.append text))
    · exact bracketCandidate_agree level _ (h.append text)

omit [Source σ] in
/-- Taking off the closer gives the same token for drafts that are alike. -/
theorem closeBracket_agree (level : Nat) (kind : Kind) {d e : Draft} (h : d.Alike e) :
    Agree SameToken (closeBracket level kind d) (closeBracket level kind e) := by
  refine (h.strip (level + 2)).bind ?_
  intro d' e' hstripped
  exact .ok (hstripped.token_finish kind)

theorem blankRound_agree (s : Scanner σ) {d e : Draft} (h : d.Alike e) :
    Agree (Round.Alike (fun _ => Draft.Alike) Draft.Alike) (blankRound s d) (blankRound s e) := by
  unfold blankRound
  refine agree_bind_same _ ?_
  rintro ⟨_, s₁⟩
  have hrun := h.append (s.front Byte.isBlank).1
  dsimp only
  split <;> split
  · exact .ok (.again _ hrun)
  · exact .ok (.again _ h)
  · exact .ok (.done _ hrun)
  · exact .ok (.done _ h)

theorem lineRound_agree (s : Scanner σ) (d e : Draft) :
    Agree (Round.Alike (fun _ _ _ => True) fun _ _ => True) (lineRound s d) (lineRound s e) := by
  unfold lineRound
  dsimp only
  split
  · split
    · exact .ok (.done _ trivial)
    · refine agree_bind_same _ ?_
      rintro ⟨_, s₁⟩
      exact .ok (.again _ trivial)
  · refine agree_bind_same _ ?_
    rintro ⟨_, s₁⟩
    exact .ok (.done _ trivial)

/-- The level and the scanner are the same, and the drafts are alike. -/
structure SameOpening (a b : Option Nat × Scanner σ × Draft) : Prop where
  level : a.1 = b.1
  scanner : a.2.1 = b.2.1
  draft : a.2.2.Alike b.2.2

/-- A possible opener is read alike into drafts that are alike, whether it is finished or not. -/
theorem openBracket_agree (s : Scanner σ) {d e : Draft} (h : d.Alike e) :
    Agree SameOpening (openBracket s d) (openBracket s e) := by
  unfold openBracket
  dsimp only
  split
  · exact .error _
  refine agree_bind_same _ ?_
  rintro ⟨bracket, s₁⟩
  refine agree_bind_same _ ?_
  rintro ⟨signs, s₂⟩
  have hsigns := (h.append bracket).append signs
  dsimp only
  split
  · refine agree_bind_same _ ?_
    rintro ⟨_, s₃⟩
    refine (hsigns.strip (1 + signs.length)).bind ?_
    intro d' e' hstripped
    exact .ok ⟨rfl, rfl, hstripped⟩
  · exact .ok ⟨rfl, rfl, hsigns⟩

theorem word_agree (s : Scanner σ) {d e : Draft} (h : d.Alike e) :
    Agree (SameState SameToken) (word s d) (word s e) :=
  repeatUntilDone_agree (fun s _ _ => wordRound_agree s) s h

theorem quoted_agree (s : Scanner σ) {d e : Draft} (h : d.Alike e) :
    Agree (SameState SameToken) (quoted s d) (quoted s e) :=
  repeatUntilDone_agree (fun s _ _ => quotedRound_agree s) s h

theorem bracketBody_agree (level : Nat) (s : Scanner σ) {d e : Draft} (h : d.Alike e) :
    Agree (SameState SameBody) (bracketBody level s d) (bracketBody level s e) :=
  repeatUntilDone_agree (fun s _ _ => bracketRound_agree level s) s h

theorem blanks_agree (s : Scanner σ) {d e : Draft} (h : d.Alike e) :
    Agree (SameState Draft.Alike) (blanks s d) (blanks s e) :=
  repeatUntilDone_agree (fun s _ _ => blankRound_agree s) s h

theorem restOfLine_agree (s : Scanner σ) (d e : Draft) :
    Agree (SameState fun _ _ => True) (restOfLine s d) (restOfLine s e) :=
  repeatUntilDone_agree (fun s d e _ => lineRound_agree s d e) s trivial

/-! ## Entries from any drafts -/

omit [Source σ] in
/-- A byte on its own is the same token for any drafts. -/
theorem single_agree (kind : Kind) (s : Scanner σ) (d e : Draft) :
    Agree (SameState SameToken) (single kind s d) (single kind s e) := by
  refine agree_bind_same _ ?_
  rintro ⟨byte, s'⟩
  exact .ok ⟨rfl, ((Draft.start_alike d e s.position).set byte).token_finish kind⟩

theorem bareWord_agree (s : Scanner σ) (d e : Draft) :
    Agree (SameState SameToken) (bareWord s d) (bareWord s e) :=
  word_agree s (Draft.start_alike d e s.position)

theorem tokenAt_agree (byte : UInt8) (s : Scanner σ) (d e : Draft) :
    Agree (SameState SameToken) (tokenAt byte s d) (tokenAt byte s e) := by
  unfold tokenAt
  split
  · refine (single_agree .newline s d e).bind ?_
    rintro ⟨s', d'⟩ ⟨_, e'⟩ ⟨rfl, htoken⟩
    exact .ok ⟨rfl, htoken⟩
  split
  · exact single_agree _ s d e
  split
  · exact single_agree _ s d e
  split
  · dsimp only
    split
    · exact bareWord_agree _ d e
    · exact single_agree _ _ d e
  split
  · exact bareWord_agree s d e
  · exact single_agree _ s d e

/-- The entries are of the same sort and leave the same scanner. Finished tokens are the same, and
drafts of tokens that have been opened are alike. -/
inductive Entry.Alike : Entry σ → Entry σ → Prop where
  /-- A token is finished. -/
  | token (s : Scanner σ) {d e : Draft} (same : d.token = e.token) : Alike (.token s d) (.token s e)
  /-- Blanks have been passed over. -/
  | passed (s : Scanner σ) (d e : Draft) : Alike (.passed s d) (.passed s e)
  /-- A line comment has begun. -/
  | lineComment (s : Scanner σ) (d e : Draft) : Alike (.lineComment s d) (.lineComment s e)
  /-- A quoted argument has been opened. -/
  | quoted (s : Scanner σ) {d e : Draft} (alike : d.Alike e) : Alike (.quoted s d) (.quoted s e)
  /-- A bracket has been opened. -/
  | bracket (level : Nat) (kind : Kind) (s : Scanner σ) {d e : Draft} (alike : d.Alike e) :
      Alike (.bracket level kind s d) (.bracket level kind s e)

theorem blank_agree (s : Scanner σ) (d e : Draft) :
    Agree Entry.Alike (blank s d) (blank s e) := by
  refine (blanks_agree s (Draft.start_alike d e s.position)).bind ?_
  rintro ⟨s', d'⟩ ⟨_, e'⟩ ⟨rfl, halike⟩
  dsimp only
  split
  · exact .ok (.token s' (halike.token_finish .space))
  · exact .ok (.passed s' d' e')

theorem comment_agree (s : Scanner σ) (d e : Draft) :
    Agree Entry.Alike (comment s d) (comment s e) := by
  refine agree_bind_same _ ?_
  rintro ⟨_, s₁⟩
  dsimp only
  split
  · refine (openBracket_agree _ (Draft.start_alike d e s.position)).bind ?_
    rintro ⟨level, s₂, d'⟩ ⟨_, _, e'⟩ ⟨rfl, rfl, halike⟩
    cases level with
    | some n => exact .ok (.bracket n .bracketComment s₂ halike)
    | none => exact .ok (.lineComment s₂ d' e')
  · exact .ok (.lineComment _ _ _)

theorem bracketArgument_agree (s : Scanner σ) (d e : Draft) :
    Agree Entry.Alike (bracketArgument s d) (bracketArgument s e) := by
  refine (openBracket_agree s (Draft.start_alike d e s.position)).bind ?_
  rintro ⟨level, s', d'⟩ ⟨_, _, e'⟩ ⟨rfl, rfl, halike⟩
  cases level with
  | some n => exact .ok (.bracket n .bracket s' halike)
  | none =>
    refine (word_agree s' halike).bind ?_
    rintro ⟨s₁, d₁⟩ ⟨_, e₁⟩ ⟨rfl, htoken⟩
    exact .ok (.token s₁ htoken)

/-- Entering does the same with any two drafts. -/
theorem enter_agree (s : Scanner σ) (d e : Draft) :
    Agree Entry.Alike (enter s d) (enter s e) := by
  unfold enter
  dsimp only
  split
  · exact .ok (.token _ ((Draft.start_alike d e _).token_finish .nothing))
  split
  · exact blank_agree _ d e
  split
  · exact comment_agree _ d e
  split
  · exact bracketArgument_agree _ d e
  split
  · refine agree_bind_same _ ?_
    rintro ⟨_, s₁⟩
    exact .ok (.quoted _ (Draft.start_alike d e _))
  · refine (tokenAt_agree _ _ d e).bind ?_
    rintro ⟨s', d'⟩ ⟨_, e'⟩ ⟨rfl, htoken⟩
    exact .ok (.token s' htoken)

end Scanner

/-! ## The machine -/

/-- What drafts must have in common for a machine in the given mode: nothing between tokens and in a
line comment, and text and start inside of a token. -/
def Mode.Alike : Mode → Draft → Draft → Prop
  | .default, _, _ | .lineComment, _, _ => True
  | .quotedString, d, e | .bracketArgument, d, e | .bracketClosing, d, e => d.Alike e

namespace Machine

variable {σ : Type} [Source σ]

/-- A step does the same with drafts that have in common what its mode asks for. -/
theorem step_agree (m : Machine σ) {d e : Draft} (h : m.mode.Alike d e) :
    Agree (Scanner.Round.Alike (fun m => m.mode.Alike) Scanner.SameToken) (m.step d) (m.step e) := by
  cases hmode : m.mode with
  | default =>
    simp only [step, hmode]
    refine (Scanner.enter_agree m.scanner d e).bind ?_
    rintro _ _ (@⟨s, d', e', htoken⟩ | ⟨s, d', e'⟩ | ⟨s, d', e'⟩ | @⟨s, d', e', halike⟩ |
      @⟨level, kind, s, d', e', halike⟩)
    · exact .ok (.done _ htoken)
    · exact .ok (.again _ trivial)
    · exact .ok (.again _ trivial)
    · exact .ok (.again _ halike)
    · exact .ok (.again _ halike)
  | lineComment =>
    simp only [step, hmode]
    refine (Scanner.restOfLine_agree m.scanner d e).bind ?_
    rintro ⟨s, d'⟩ ⟨_, e'⟩ ⟨rfl, -⟩
    exact .ok (.again _ trivial)
  | quotedString =>
    rw [hmode] at h
    simp only [step, hmode]
    refine (Scanner.quoted_agree m.scanner h).bind ?_
    rintro ⟨s, d'⟩ ⟨_, e'⟩ ⟨rfl, htoken⟩
    exact .ok (.done _ htoken)
  | bracketArgument =>
    rw [hmode] at h
    simp only [step, hmode]
    refine (Scanner.bracketBody_agree m.level m.scanner h).bind ?_
    rintro ⟨s, r⟩ ⟨_, r'⟩ ⟨rfl, hbody⟩
    cases hbody with
    | closed halike => exact .ok (.again _ halike)
    | unclosed htoken => exact .ok (.done _ htoken)
  | bracketClosing =>
    rw [hmode] at h
    simp only [step, hmode]
    refine (Scanner.closeBracket_agree m.level m.kind h).bind ?_
    intro d' e' htoken
    exact .ok (.done _ htoken)

/-- From the default mode a machine comes to the same token and to the same machine, whatever the
draft. -/
theorem run_agree {m : Machine σ} (hmode : m.mode = .default) (d e : Draft) :
    Agree (Scanner.SameState Scanner.SameToken) (m.run d) (m.run e) := by
  refine Scanner.repeatUntilDone_agree (R := fun m => m.mode.Alike) (fun m _ _ => step_agree m) m ?_
  rw [hmode]
  exact trivial

/-- There is one machine that a machine in the default mode comes to, whatever the draft. It is in the
default mode again and holds the scanner that a call leaves. -/
theorem exists_run_of_default {m : Machine σ} (hmode : m.mode = .default) :
    ∃ m', m'.mode = .default ∧ ∀ d, m'.scanner = (m.scanner.next d).1 ∧
      m.run d = .ok (m', (m.scanner.next d).2) := by
  obtain ⟨m', hrun, -, hmode'⟩ := run_of_default hmode Draft.empty
  refine ⟨m', hmode', fun d => ?_⟩
  obtain ⟨m₁, hrun₁, hscanner, -⟩ := run_of_default hmode d
  have hsame := run_agree hmode Draft.empty d
  rw [hrun, hrun₁] at hsame
  cases hsame with
  | ok hrelated =>
    obtain ⟨rfl, -⟩ := hrelated
    exact ⟨hscanner, hrun₁⟩

end Machine

namespace Scanner

variable {σ : Type} [Source σ]

/-! ## Calls -/

/-- A call gives the same token and leaves the same scanner, whatever the draft. -/
theorem next_sameToken (s : Scanner σ) (d e : Draft) :
    SameState SameToken (next s d) (next s e) := by
  have hscan : Agree (SameState SameToken) (scan s d) (scan s e) := by
    refine (Machine.run_agree (m := Machine.ofScanner s) rfl d e).bind ?_
    rintro ⟨m, d'⟩ ⟨_, e'⟩ ⟨rfl, htoken⟩
    exact .ok ⟨rfl, htoken⟩
  rw [scan_eq_next, scan_eq_next] at hscan
  cases hscan with
  | ok hsame => exact hsame

/-- The readings of calls each of which is given a draft of its own, and the scanner after them. -/
def readingsWith : List Draft → Scanner σ → List Reading × Scanner σ
  | [], s => ([], s)
  | d :: drafts, s =>
    let r := next s d
    let more := readingsWith drafts r.1
    (reading r.1 r.2 :: more.1, more.2)

/-- Drafts of their own for all calls give what one draft for all of them gives. -/
theorem readingsWith_eq (drafts : List Draft) (s : Scanner σ) (d : Draft) :
    readingsWith drafts s =
      ((readingsN drafts.length s d).1, (after drafts.length s d).1) := by
  induction drafts generalizing s d with
  | nil => rfl
  | cons e drafts ih =>
    obtain ⟨hscanner, htoken⟩ := next_sameToken s e d
    rw [readingsWith, ih _ (next s d).2, hscanner, reading, htoken]
    rfl

/-- A round that is passed over leaves nothing for the token after it: the rest of the call is a call
of its own, with any draft. -/
theorem next_of_again {s s' : Scanner σ} {d d' : Draft} (h : scanRound s d = .ok (.again s' d'))
    (e : Draft) : SameState SameToken (next s d) (next s' e) := by
  obtain ⟨rounds, hlater, -⟩ := next_finishes s' d'
  have hscan : scan s d = .ok (next s' d') := (Finishes.again h hlater).scan_eq
  rw [scan_eq_next] at hscan
  rw [Except.ok.inj hscan]
  exact next_sameToken s' d' e

/-- Scanning from `s` on does not depend on drafts. -/
structure DraftBlind (s : Scanner σ) : Prop where
  /-- Two drafts, whatever they hold, lead to the same token, and the scanner after it is the same. -/
  call : ∀ d e, (next s d).1 = (next s e).1 ∧ (next s d).2.token = (next s e).2.token
  /-- Any number of calls, each with any draft, give the readings of calls that share one draft, and
  the scanner after them is the same. -/
  run : ∀ drafts d, readingsWith drafts s =
    ((readingsN drafts.length s d).1, (after drafts.length s d).1)
  /-- The machine of the scanner, whatever level and kind of a bracket it remembers, is left as one and
  the same machine by all drafts, with its mode, level and kind. Its mode is the default one. -/
  machine : ∀ m : Machine σ, m.scanner = s → m.mode = .default →
    ∃ m', m'.mode = .default ∧
      ∀ d, m'.scanner = (next s d).1 ∧ m.run d = .ok (m', (next s d).2)
  /-- What a comment or a blank run leaves in the draft does not come into the token after it. -/
  passed : ∀ d s' d', scanRound s d = .ok (.again s' d') → ∀ e,
    (next s d).1 = (next s' e).1 ∧ (next s d).2.token = (next s' e).2.token

/-- What is left in a draft does not matter, for whatever source and in whatever state. -/
theorem draftBlind (s : Scanner σ) : s.DraftBlind where
  call := next_sameToken s
  run drafts := readingsWith_eq drafts s
  machine m hscanner hmode := by
    rw [← hscanner]
    exact Machine.exists_run_of_default hmode
  passed _ _ _ h := next_of_again h

-- There is something that could come into the token: a comment that begins like an opener leaves the
-- bytes of the opener in the draft.
example : (match scanRound (ofSource ⟨false, 0⟩ (⟨[Byte.hash, Byte.bracketLeft, Byte.equals, 0x61,
    Byte.newline, 0x62]⟩ : Memory)) Draft.empty with
    | .ok (.again _ d) => d.text
    | _ => []) = [Byte.bracketLeft, Byte.equals] := by
  cbv

end Scanner

end Listfile
