import Mathlib.Data.List.Induction
import Listfile.Proofs.Lexer
import Listfile.Proofs.Progress

/-!
# A lexer has no memory beyond its session

A lexer may be bound again at any moment: in the middle of an input, after faults, after the end, or
after a file that could not be opened. Whatever has been done with it before, from then on it behaves
like a fresh lexer of the same settings on which only the last operation that binds an input and the
requests for tokens since have been performed, or nothing at all if nothing is bound
(`depends_on_recent`).

* `Operation` lists what can be done with a lexer, and `observe` what is seen of it: the answer to
  each operation and the view after it.
* `latest` finds the last operation of a history that begins or ends a session, and counts the
  requests since; `recent` is what counts of the history.
* Within a session the scanner is asked as long as it has not come to the end, and never again
  (`Session.Driven`). So the position of a lexer is that of the token read last, the end included, and
  once a request is answered with nothing, all are, and nothing more changes.
-/

namespace Listfile

/-! ## Operations -/

namespace Lexer

/-- An operation that begins a session or ends one. -/
inductive Binding where
  /-- Bind bytes in memory. -/
  | memory (bytes : List UInt8)
  /-- Bind a stream. -/
  | stream (s : Stream)
  /-- Bind the file at a path, as the file system is then. -/
  | file (files : FileSystem) (path : String)
  /-- End the session. -/
  | close

/-- An operation on a lexer. -/
inductive Operation where
  /-- Begin a session or end one. -/
  | bind (b : Binding)
  /-- Ask for the next token. -/
  | next

/-- The answer to an operation. -/
inductive Answer where
  /-- There is nothing to say. -/
  | silent
  /-- The byte-order mark of the stream that is bound now. -/
  | mark (bom : Bom)
  /-- The file cannot be opened. -/
  | refused (e : OpenError)
  /-- The token asked for, if there is one. -/
  | token (t : Option Token)

/-- Begin a session or end one. -/
def Binding.perform (l : Lexer) : Binding → Answer × Lexer
  | memory bytes => (.silent, l.openMemory bytes)
  | stream s => (.mark (l.openStream s).1, (l.openStream s).2)
  | file files path =>
    match l.openPath files path with
    | (.ok bom, l) => (.mark bom, l)
    | (.error e, l) => (.refused e, l)
  | close => (.silent, l.close)

/-- Carry out an operation. -/
def perform (l : Lexer) : Operation → Answer × Lexer
  | .bind b => b.perform l
  | .next => (.token l.next.1, l.next.2)

/-- The lexer after the given operations. -/
def after (l : Lexer) (ops : List Operation) : Lexer :=
  ops.foldl (fun l op => (l.perform op).2) l

@[simp] theorem after_nil (l : Lexer) : l.after [] = l := rfl

@[simp] theorem after_cons (l : Lexer) (op : Operation) (ops : List Operation) :
    l.after (op :: ops) = (l.perform op).2.after ops := rfl

@[simp] theorem after_append (l : Lexer) (ops later : List Operation) :
    l.after (ops ++ later) = (l.after ops).after later := List.foldl_append

/-- What a lexer shows between two operations. -/
structure View where
  /-- Whether an input is bound. -/
  bound : Bool
  /-- The byte-order mark of the stream that is bound. -/
  bom : Option Bom
  /-- The position of the token read last. -/
  position : Position
deriving DecidableEq, Repr

/-- What the lexer shows now. -/
def view (l : Lexer) : View := ⟨l.isBound, l.bom, l.position⟩

/-- What is seen of a lexer in the course of the given operations: each answer with the view after
it. -/
def observe (l : Lexer) : List Operation → List (Answer × View)
  | [] => []
  | op :: later => ((l.perform op).1, (l.perform op).2.view) :: (l.perform op).2.observe later

/-! ## What counts of a history -/

/-- The last operation of a history that begins or ends a session, if there is one, and the number of
requests for tokens since. -/
def latest (ops : List Operation) : Option Binding × Nat :=
  ops.foldl (fun (last, requests) op =>
    match op with
    | .bind b => (some b, 0)
    | .next => (last, requests + 1)) (none, 0)

/-- Whether an input is bound after the operation: it fails if the file cannot be opened, and closing
binds nothing. -/
def Binding.binds : Binding → Bool
  | memory _ => true
  | stream _ => true
  | file files path => (files path).isOk
  | close => false

/-- What counts of a history: if the last operation that begins or ends a session binds an input, this
operation and the requests since, and otherwise nothing. -/
def recent (ops : List Operation) : List Operation :=
  match latest ops with
  | (some b, requests) => if b.binds then .bind b :: List.replicate requests .next else []
  | (none, _) => []

theorem latest_append_bind (ops : List Operation) (b : Binding) :
    latest (ops ++ [.bind b]) = (some b, 0) := by
  simp only [latest, List.foldl_append, List.foldl_cons, List.foldl_nil]

theorem latest_append_next (ops : List Operation) :
    latest (ops ++ [.next]) = ((latest ops).1, (latest ops).2 + 1) := by
  simp only [latest, List.foldl_append, List.foldl_cons, List.foldl_nil]

/-- The session that an operation begins with the given settings, if it binds an input. -/
def Binding.session? (settings : Settings) : Binding → Option Session
  | memory bytes => some (Session.ofFeed settings (.memory ⟨bytes⟩) none)
  | stream s => ((ofSettings settings).openStream s).2.session
  | file files path =>
    match files path with
    | .ok s => ((ofSettings settings).openStream s).2.session
    | .error _ => none
  | close => none

/-- The session of the lexer afterwards is the one that the operation begins, whatever the lexer was
doing before, and so is the answer. -/
theorem Binding.perform_eq (b : Binding) (l : Lexer) :
    b.perform l = ((b.perform (ofSettings l.settings)).1, ⟨l.settings, b.session? l.settings⟩) := by
  cases b with
  | memory bytes => rfl
  | stream s => rfl
  | file files path =>
    simp only [perform, session?, openPath]
    cases files path <;> rfl
  | close => rfl

/-- An operation begins a session if it binds an input. -/
theorem Binding.isSome_session? (b : Binding) (settings : Settings) :
    (b.session? settings).isSome = b.binds := by
  cases b with
  | memory bytes => rfl
  | stream s => rfl
  | file files path =>
    simp only [session?, binds]
    cases files path <;> rfl
  | close => rfl

/-- A request for a token leaves the settings as they are. -/
theorem next_settings (l : Lexer) : l.next.2.settings = l.settings := by
  unfold next
  split <;> rfl

/-- Operations leave the settings as they are. -/
theorem after_settings (l : Lexer) (ops : List Operation) : (l.after ops).settings = l.settings := by
  induction ops generalizing l with
  | nil => rfl
  | cons op ops ih =>
    rw [after_cons, ih]
    cases op with
    | bind b => rw [perform, Binding.perform_eq]
    | next => exact l.next_settings

/-- After any history, the session is the one begun last, with the requests since. -/
theorem after_eq_of_latest (settings : Settings) (ops : List Operation) :
    (ofSettings settings).after ops =
      after ⟨settings, (latest ops).1.bind (·.session? settings)⟩
        (List.replicate (latest ops).2 .next) := by
  -- The last operation decides: it replaces the session, or it is one more request.
  induction ops using List.reverseRecOn with
  | nil => rfl
  | append_singleton ops op ih =>
    rw [after_append]
    cases op with
    | bind b =>
      have hsettings := (ofSettings settings).after_settings ops
      rw [latest_append_bind, after_cons, perform, Binding.perform_eq, hsettings]
      rfl
    | next =>
      rw [latest_append_next, List.replicate_succ', after_append, ih]

/-- Requests to a lexer that is bound to nothing change nothing. -/
theorem after_requests_of_unbound (settings : Settings) (n : Nat) :
    (ofSettings settings).after (List.replicate n .next) = ofSettings settings := by
  induction n with
  | zero => rfl
  | succ n ih =>
    rw [List.replicate_succ', after_append, ih]
    rfl

/-- What counts of a history leads to the same lexer as the whole. -/
theorem after_recent (settings : Settings) (ops : List Operation) :
    (ofSettings settings).after (recent ops) = (ofSettings settings).after ops := by
  rw [after_eq_of_latest settings ops, recent]
  obtain ⟨last, requests⟩ := latest ops
  cases last with
  | none => exact (after_requests_of_unbound settings requests).symm
  | some b =>
    have hsome := b.isSome_session? settings
    simp only [Option.bind_some]
    cases hbinds : b.binds with
    | true =>
      rw [if_pos rfl, after_cons, perform, Binding.perform_eq]
      rfl
    | false =>
      rw [hbinds] at hsome
      have hnone : b.session? settings = none := Option.isNone_iff_eq_none.1 (by
        rw [← Option.not_isSome, hsome]
        rfl)
      rw [hnone, if_neg Bool.false_ne_true]
      exact (after_requests_of_unbound settings requests).symm

end Lexer

/-! ## Within one session -/

/-- After `n` requests since the session was `start`, its scanner has been asked `k` times: every time
but for those after the end of the input. -/
structure Session.Driven (start : Session) (n k : Nat) (now : Session) : Prop where
  /-- The scanner is the one after `k` calls. -/
  scanner : now.scanner = (Scanner.after k start.scanner start.draft).1
  /-- The draft holds the token of the last of these calls. -/
  draft : now.draft = (Scanner.after k start.scanner start.draft).2
  /-- The byte-order mark is the same. -/
  bom : now.bom = start.bom
  /-- The scanner is not asked more often than the session. -/
  le : k ≤ n
  /-- The first request is passed on. -/
  pos : 0 < n → 0 < k
  /-- All calls but the last have given a token. -/
  tokens : ∀ i, 0 < i → i < k → (Scanner.after i start.scanner start.draft).2.kind ≠ .nothing
  /-- If the session has finished, the last call has given the end of the input. -/
  ended : now.finished = true →
    0 < k ∧ (Scanner.after k start.scanner start.draft).2.kind = .nothing
  /-- If not, no call has done so, and every request has been passed on. -/
  going : now.finished = false →
    k = n ∧ (0 < k → (Scanner.after k start.scanner start.draft).2.kind ≠ .nothing)

namespace Session

/-- A session in which nothing has been read has not been driven. -/
theorem driven_start {s : Session} (h : s.finished = false) : s.Driven 0 0 s where
  scanner := rfl
  draft := rfl
  bom := rfl
  le := Nat.le_refl 0
  pos := id
  tokens := fun i _ hi => absurd hi (Nat.not_lt_zero i)
  ended := fun hended => absurd (hended.symm.trans h) (by decide)
  going := fun _ => ⟨rfl, fun hpos => absurd hpos (Nat.lt_irrefl 0)⟩

/-- A finished session answers with nothing and stays as it is. -/
theorem next_of_finished {s : Session} (h : s.finished = true) : s.next = (none, s) := by
  rw [next, if_pos h]

/-- One more request drives the scanner once more, unless the session has finished. -/
theorem Driven.next {start now : Session} {n k : Nat} (h : start.Driven n k now) :
    ∃ k', start.Driven (n + 1) k' now.next.2 := by
  cases hfinished : now.finished with
  | true =>
    -- The scanner is not asked again.
    obtain ⟨hpos, hkind⟩ := h.ended hfinished
    rw [next_of_finished hfinished]
    exact ⟨k, h.scanner, h.draft, h.bom, Nat.le_succ_of_le h.le, fun _ => hpos, h.tokens, h.ended,
      fun hgoing => absurd (hfinished.symm.trans hgoing) (by decide)⟩
  | false =>
    obtain ⟨rfl, hnone⟩ := h.going hfinished
    have hnext : now.scanner.next now.draft =
        Scanner.after (k + 1) start.scanner start.draft := by
      rw [h.scanner, h.draft, Scanner.after_succ]
    have htokens : ∀ i, 0 < i → i < k + 1 →
        (Scanner.after i start.scanner start.draft).2.kind ≠ .nothing := by
      intro i hpos hi
      rcases Nat.lt_succ_iff_lt_or_eq.1 hi with hlt | rfl
      · exact h.tokens i hpos hlt
      · exact hnone hpos
    refine ⟨k + 1, ?_⟩
    by_cases hkind : (now.scanner.next now.draft).2.kind = .nothing
    · rw [next_of_nothing hfinished hkind, hnext]
      rw [hnext] at hkind
      exact ⟨rfl, rfl, h.bom, Nat.le_refl _, fun _ => Nat.succ_pos k, htokens,
        fun _ => ⟨Nat.succ_pos k, hkind⟩, fun hgoing => nomatch hgoing⟩
    · rw [next_of_ne_nothing hfinished hkind, hnext]
      rw [hnext] at hkind
      exact ⟨rfl, rfl, h.bom, Nat.le_refl _, fun _ => Nat.succ_pos k, htokens,
        fun hended => absurd (hended.symm.trans hfinished) (by decide),
        fun _ => ⟨rfl, fun _ => hkind⟩⟩

end Session

namespace Lexer

/-- Requests for tokens drive the session of a lexer. -/
theorem after_requests (settings : Settings) {start : Session} (h : start.finished = false)
    (n : Nat) : ∃ k now, start.Driven n k now ∧
      after ⟨settings, some start⟩ (List.replicate n .next) = ⟨settings, some now⟩ := by
  induction n with
  | zero => exact ⟨0, start, Session.driven_start h, rfl⟩
  | succ n ih =>
    obtain ⟨k, now, hdriven, hafter⟩ := ih
    obtain ⟨k', hnext⟩ := hdriven.next
    refine ⟨k', now.next.2, hnext, ?_⟩
    rw [List.replicate_succ', after_append, hafter]
    rfl

/-- Once a request is answered with nothing, the next one is too and changes nothing. -/
theorem next_of_none {l : Lexer} (h : l.next.1 = none) : l.next.2.next = (none, l.next.2) := by
  obtain ⟨settings, session⟩ := l
  cases session with
  | none => rfl
  | some s =>
    have hfinished : s.next.2.finished = true := by
      cases hbefore : s.finished with
      | true =>
        rw [Session.next_of_finished hbefore]
        exact hbefore
      | false =>
        by_cases hkind : (s.scanner.next s.draft).2.kind = .nothing
        · rw [Session.next_of_nothing hbefore hkind]
        · have hsome : s.next.1 = none := h
          rw [Session.next_of_ne_nothing hbefore hkind] at hsome
          cases hsome
    simp only [next, Session.next_of_finished hfinished]

/-- A lexer that answers with nothing and stays as it is does so however often it is asked. -/
theorem observe_of_still {l : Lexer} (h : l.next = (none, l)) (m : Nat) :
    l.observe (List.replicate m .next) = List.replicate m (.token none, l.view) := by
  induction m with
  | zero => rfl
  | succ m ih => simp only [List.replicate_succ, observe, perform, h, ih]

/-- What a lexer shows, `n` requests after the given operation was the last to begin or end a
session. -/
inductive Shows (settings : Settings) (last : Option Binding) (n : Nat) : View → Prop where
  /-- No input is bound. -/
  | unbound (h : last.bind (·.session? settings) = none) :
      Shows settings last n ⟨false, none, Position.start⟩
  /-- An input is bound, and nothing has been asked for yet. -/
  | waiting {start : Session} (h : last.bind (·.session? settings) = some start) (unasked : n = 0) :
      Shows settings last n ⟨true, start.bom, Position.start⟩
  /-- An input is bound, and the scanner has been asked `k` times for it. The position is that of the
  token given last, the end of the input included. -/
  | reading {start now : Session} {k : Nat} (h : last.bind (·.session? settings) = some start)
      (driven : start.Driven n k now) (asked : 0 < k) :
      Shows settings last n
        ⟨true, start.bom, (Scanner.after k start.scanner start.draft).2.token.position⟩

/-- A session that has just begun has read nothing. -/
theorem Binding.session?_fresh {b : Binding} {settings : Settings} {s : Session}
    (h : b.session? settings = some s) : s.draft = Draft.empty ∧ s.finished = false := by
  cases b with
  | memory bytes =>
    cases h
    exact ⟨rfl, rfl⟩
  | stream stream =>
    cases h
    exact ⟨rfl, rfl⟩
  | file files path =>
    simp only [session?] at h
    split at h
    · cases h
      exact ⟨rfl, rfl⟩
    · cases h
  | close => cases h

/-- What a lexer shows after a history. -/
theorem shows_after (settings : Settings) (ops : List Operation) :
    Shows settings (latest ops).1 (latest ops).2 ((ofSettings settings).after ops).view := by
  rw [after_eq_of_latest]
  cases hsession : (latest ops).1.bind (·.session? settings) with
  | none =>
    have hsame := after_requests_of_unbound settings (latest ops).2
    rw [ofSettings] at hsame
    rw [hsame]
    exact .unbound hsession
  | some start =>
    obtain ⟨b, -, hb⟩ := Option.bind_eq_some_iff.1 hsession
    obtain ⟨hfresh, hgoing⟩ := Binding.session?_fresh hb
    obtain ⟨k, now, hdriven, hafter⟩ := after_requests settings hgoing (latest ops).2
    have hview : (⟨settings, some now⟩ : Lexer).view =
        ⟨true, start.bom, (Scanner.after k start.scanner start.draft).2.token.position⟩ := by
      rw [← hdriven.bom, ← hdriven.draft]
      rfl
    rw [hafter, hview]
    rcases Nat.eq_zero_or_pos (latest ops).2 with hzero | hpos
    · obtain rfl : k = 0 := Nat.le_zero.1 (hzero ▸ hdriven.le)
      rw [Scanner.after, hfresh]
      exact .waiting hsession hzero
    · exact .reading hsession hdriven (hdriven.pos hpos)

/-- A lexer has no memory beyond its session. After any operations it shows what a fresh lexer shows
after those that count, and it will show and answer the same in the course of all later ones; what it
shows is the position of the last token of the session; and once it has answered a request with
nothing, it answers all further ones so and shows the same. -/
theorem depends_on_recent (settings : Settings) (ops : List Operation) :
    ((ofSettings settings).after ops).view = ((ofSettings settings).after (recent ops)).view ∧
      (∀ later, ((ofSettings settings).after ops).observe later =
        ((ofSettings settings).after (recent ops)).observe later) ∧
      Shows settings (latest ops).1 (latest ops).2 ((ofSettings settings).after ops).view ∧
      (((ofSettings settings).after ops).next.1 = none → ∀ m,
        ((ofSettings settings).after ops).next.2.observe (List.replicate m .next) =
          List.replicate m (.token none, ((ofSettings settings).after ops).next.2.view)) := by
  refine ⟨?_, ?_, shows_after settings ops, ?_⟩
  · rw [after_recent]
  · intro later
    rw [after_recent]
  · intro hnone m
    exact observe_of_still (next_of_none hnone) m

/-- A lexer that is bound to no bytes answers with nothing, at the start. -/
theorem next_openMemory_nil (l : Lexer) :
    (l.openMemory []).next.1 = none ∧
      (l.openMemory []).next.2.view = ⟨true, none, Position.start⟩ := by
  have hholds := (Feed.memory_delivers ⟨[]⟩).holds l.settings Draft.empty
  have hreadings := Scanner.readingsN_eq hholds 1
  rw [segments] at hreadings
  have htoken : ((Scanner.ofSource l.settings (Feed.memory ⟨[]⟩)).next Draft.empty).2.token =
      ⟨.nothing, [], Position.start⟩ :=
    congrArg Scanner.Reading.token (List.head_eq_of_cons_eq hreadings)
  have hnext := Session.next_of_nothing
    (s := Session.ofFeed l.settings (.memory ⟨[]⟩) none) rfl (congrArg Token.kind htoken)
  have hposition := congrArg Token.position htoken
  simp only [next, openMemory, hnext, true_and]
  exact congrArg (View.mk true none) hposition

/-- A lexer that is bound to no bytes, after a session on a letter and a file that cannot be
opened. -/
theorem depends_on_recent_of_refusal :
    ((ofSettings ⟨true, 0⟩).after [.bind (.memory [0x61]), .next,
        .bind (.file (fun _ => .error .notFound) "a"), .next, .bind (.memory [])]).view =
        ((ofSettings ⟨true, 0⟩).after [.bind (.memory [])]).view ∧
      ((ofSettings ⟨true, 0⟩).after [.bind (.memory [0x61]), .next,
        .bind (.file (fun _ => .error .notFound) "a"), .next, .bind (.memory [])]).next.1 = none ∧
      ((ofSettings ⟨true, 0⟩).after [.bind (.memory [0x61]), .next,
        .bind (.file (fun _ => .error .notFound) "a"), .next,
          .bind (.memory [])]).next.2.observe [.next, .next] =
        [(.token none, ⟨true, none, Position.start⟩),
          (.token none, ⟨true, none, Position.start⟩)] := by
  obtain ⟨hview, -, -, hstill⟩ := depends_on_recent ⟨true, 0⟩ [.bind (.memory [0x61]), .next,
    .bind (.file (fun _ => .error .notFound) "a"), .next, .bind (.memory [])]
  obtain ⟨hnone, hposition⟩ := next_openMemory_nil ((ofSettings ⟨true, 0⟩).after
    [.bind (.memory [0x61]), .next, .bind (.file (fun _ => .error .notFound) "a"), .next])
  refine ⟨hview, hnone, ?_⟩
  rw [← hposition]
  exact hstill hnone 2

end Lexer

end Listfile
