import Listfile.Proofs.Scanner
import Listfile.Scanner.Bracket
import Listfile.Segment

/-!
# Brackets are scanned up to the first closer of their level

Both ends of a bracket are found speculatively: equals signs are put on the draft before it shows
whether they belong to an opener or a closer, and are taken off again if they do.

* `openBracket_ok`: reading an opener succeeds exactly where `openerLevel?` finds one, and leaves the
  draft as it was; otherwise the bytes read stay on the draft and the opener is not there.
* `bracketBody_ok`: the body ends at the first closer, as `indexOf?` finds it in the whole input, and
  the closer is on the draft.
* `closeBracket_ok`: it can be taken off there.

The position follows in larger steps than the bytes: it is moved behind a bracket and its equals signs
when all of these have been consumed, and past a newline without a move over the bytes before it.

The second rests on `closer_prefix_iff`: after a closing bracket and `n` equals signs, where no
further one follows, a closer stands there if and only if `n` is the level and another closing
bracket comes next. So a round that has read as far as that can only have read past candidates that
fail, and the next candidate begins no earlier than where the round stops.
-/

namespace Listfile

/-! ## Openers -/

/-- A bracket and equals signs, where no further one follows, are an opener if and only if another
bracket follows. -/
theorem openerLevel?_bracket {rest : List UInt8} (n : Nat) (h : rest.head? ≠ some Byte.equals) :
    openerLevel? (Byte.bracketLeft :: (List.replicate n Byte.equals ++ rest)) =
      if rest.head? = some Byte.bracketLeft then some n else none := by
  have hdrop : (List.replicate n Byte.equals ++ rest).drop n = rest := by
    have hleft : (List.replicate n Byte.equals ++ rest).drop
        (List.replicate n Byte.equals).length = rest := List.drop_left
    rwa [List.length_replicate] at hleft
  have hsigns : (List.replicate n Byte.equals ++ rest).takeWhile (· == Byte.equals) =
      List.replicate n Byte.equals := by
    apply takeWhile_append_of_stop
    · intro b hb
      rw [List.eq_of_mem_replicate hb]
      rfl
    · intro b hb
      apply beq_eq_false_iff_ne.2
      rintro rfl
      exact h hb
  simp only [openerLevel?, hsigns, List.length_replicate, hdrop, true_and]

/-- An opener is found where it stands. -/
theorem openerLevel?_opener_append (n : Nat) (rest : List UInt8) :
    openerLevel? (opener n ++ rest) = some n := by
  have hsplit : opener n ++ rest =
      Byte.bracketLeft :: (List.replicate n Byte.equals ++ (Byte.bracketLeft :: rest)) := by
    simp only [opener, List.cons_append, List.append_assoc, List.nil_append]
  have hhead : (Byte.bracketLeft :: rest).head? = some Byte.bracketLeft := rfl
  rw [hsplit, openerLevel?_bracket n (by rw [hhead]; decide), if_pos hhead]

/-! ## Closers -/

/-- After a closing bracket and `n` equals signs, where no further one follows, a closer stands there
if and only if `n` is its level and another closing bracket comes next. -/
theorem closer_prefix_iff {rest : List UInt8} (level n : Nat)
    (h : rest.head? ≠ some Byte.equals) :
    closer level <+: Byte.bracketRight :: (List.replicate n Byte.equals ++ rest) ↔
      n = level ∧ rest.head? = some Byte.bracketRight := by
  rw [closer, List.cons_prefix_cons]
  simp only [true_and]
  -- Equals signs are cancelled one by one until either side has none left.
  induction level generalizing n with
  | zero =>
    cases n with
    | zero =>
      cases rest with
      | nil => simp
      | cons b rest => simp [eq_comm]
    | succ n =>
      rw [List.replicate_succ, List.cons_append, List.replicate_zero, List.nil_append,
        List.cons_prefix_cons]
      constructor
      · intro hpre
        exact absurd hpre.1 (by decide)
      · intro hzero
        exact absurd hzero.1 (by omega)
  | succ level ih =>
    rw [List.replicate_succ, List.cons_append]
    cases n with
    | zero =>
      rw [List.replicate_zero, List.nil_append]
      constructor
      · intro hpre
        obtain ⟨later, rfl⟩ := hpre
        exact absurd rfl h
      · intro hzero
        exact absurd hzero.1 (by omega)
    | succ n =>
      rw [List.replicate_succ, List.cons_append, List.cons_prefix_cons, ih n]
      simp

/-- A byte other than a closing bracket puts the first closer further off by one. -/
theorem indexOf?_closer_cons {b : UInt8} (level : Nat) (h : b ≠ Byte.bracketRight)
    (rest : List UInt8) :
    indexOf? (closer level) (b :: rest) = (indexOf? (closer level) rest).map (· + 1) := by
  have hnot : ¬ (closer level).isPrefixOf (b :: rest) = true := by
    rw [List.isPrefixOf_iff_prefix, closer, List.cons_prefix_cons]
    intro hpre
    exact h hpre.1.symm
  rw [indexOf?, if_neg hnot]

/-- Bytes other than closing brackets put the first closer further off by their number. -/
theorem indexOf?_closer_append {run : List UInt8} (level : Nat)
    (h : ∀ b ∈ run, b ≠ Byte.bracketRight) (rest : List UInt8) :
    indexOf? (closer level) (run ++ rest) =
      (indexOf? (closer level) rest).map (· + run.length) := by
  induction run with
  | nil => simp
  | cons b run ih =>
    rw [List.cons_append, indexOf?_closer_cons level (h b List.mem_cons_self),
      ih fun c hc => h c (List.mem_cons_of_mem b hc), Option.map_map, List.length_cons]
    congr 1

/-- A candidate that fails puts the first closer further off by all its bytes. -/
theorem indexOf?_closer_candidate {rest : List UInt8} (level n : Nat)
    (hequals : rest.head? ≠ some Byte.equals)
    (hfail : ¬ (n = level ∧ rest.head? = some Byte.bracketRight)) :
    indexOf? (closer level) (Byte.bracketRight :: (List.replicate n Byte.equals ++ rest)) =
      (indexOf? (closer level) rest).map (· + (n + 1)) := by
  have hnot : ¬ (closer level).isPrefixOf
      (Byte.bracketRight :: (List.replicate n Byte.equals ++ rest)) = true := by
    rw [List.isPrefixOf_iff_prefix, closer_prefix_iff level n hequals]
    exact hfail
  have hsigns : ∀ b ∈ List.replicate n Byte.equals, b ≠ Byte.bracketRight := by
    intro b hb
    rw [List.eq_of_mem_replicate hb]
    decide
  rw [indexOf?, if_neg hnot, indexOf?_closer_append level hsigns, Option.map_map,
    List.length_replicate]
  congr 1

/-- A closer at the front is the first one. -/
theorem indexOf?_closer_self (level : Nat) (rest : List UInt8) :
    indexOf? (closer level) (closer level ++ rest) = some 0 := by
  have hpre : (closer level).isPrefixOf (closer level ++ rest) = true :=
    List.isPrefixOf_iff_prefix.2 (List.prefix_append _ _)
  rw [closer, List.cons_append] at hpre ⊢
  rw [indexOf?, if_pos hpre]

namespace Scanner

/-! ## The draft -/

/-- Taking as many bytes off a text as were put on it last succeeds and brings the text back. -/
theorem strip_ok {d : Draft} {n : Nat} (base tail : List UInt8) (htext : d.text = base ++ tail)
    (hn : n = tail.length) :
    ∃ d', d.strip n = .ok d' ∧ d'.text = base ∧ d'.position = d.position := by
  have hsize : d.body.size = base.length + tail.length := by
    rw [← Array.length_toList, ← List.length_append, ← htext]
    rfl
  refine ⟨d.dropLast n, ?_, ?_, rfl⟩
  · rw [Draft.strip, if_pos (by omega)]
  · rw [Draft.text_dropLast, htext, List.length_append, hn, Nat.add_sub_cancel]
    exact List.take_left

variable {σ : Type} [Source σ]

/-! ## Reading an opener -/

/-- A run of equals signs is given by its length. -/
theorem eq_replicate_of_run {w w' : Window σ} {run : List UInt8}
    (h : Window.Run (· == Byte.equals) w run w') :
    run = List.replicate run.length Byte.equals :=
  List.eq_replicate_iff.2 ⟨rfl, fun b hb => eq_of_beq (h.all b hb)⟩

/-- After a run of equals signs no further one lies ahead. -/
theorem head?_ne_equals_of_run {w w' : Window σ} {run rest : List UInt8}
    (h : Window.Run (· == Byte.equals) w run w') (hrest : w'.Ahead rest) :
    rest.head? ≠ some Byte.equals := by
  intro hhead
  rw [hrest.head?_eq h.ready] at hhead
  exact absurd (h.stop _ hhead) (by decide)

/-- How reading an opener from `s` and `d` turns out. -/
inductive OpenerRead (s : Scanner σ) (d : Draft) : Option Nat → Scanner σ → Draft → Prop where
  /-- The opener is complete, and the text of the draft is as it was. -/
  | complete {level : Nat} {s' : Scanner σ} {d' : Draft} (pass : s.Passes (opener level) s')
      (text : d'.text = d.text) (position : d'.position = d.position) :
      OpenerRead s d (some level) s' d'
  /-- A bracket and equals signs have been put on the draft, and whatever lies ahead, no opener
  stands there. -/
  | incomplete {bytes : List UInt8} {s' : Scanner σ} {d' : Draft} (pass : s.Passes bytes s')
      (text : d'.text = d.text ++ bytes) (position : d'.position = d.position)
      (signs : ∃ n, bytes = Byte.bracketLeft :: List.replicate n Byte.equals)
      (stop : ∀ rest, s'.window.Ahead rest → openerLevel? (bytes ++ rest) = none) :
      OpenerRead s d none s' d'

/-- Reading an opener succeeds wherever an opening bracket is next. -/
theorem openBracket_ok {s : Scanner σ} (d : Draft)
    (hhead : s.window.unread.head? = some Byte.bracketLeft) :
    ∃ level s' d', openBracket s d = .ok (level, s', d') ∧ OpenerRead s d level s' d' := by
  obtain ⟨s₁, hone, hconsumes₁, -, -⟩ := take_one_ok hhead
  obtain ⟨signs, s₂, hsigns, hconsumes₂, hrun⟩ := s₁.takeRun_ok (· == Byte.equals)
  have hreplicate := eq_replicate_of_run hrun
  have hline : Byte.newline ∉ Byte.bracketLeft :: signs := by
    rw [List.mem_cons, not_or]
    exact ⟨by decide, not_mem_of_all hrun.all (by decide)⟩
  -- One move covers the bracket and its equals signs.
  have hpass : s.Passes (Byte.bracketLeft :: signs) (s₂.right (1 + signs.length)) := by
    rw [Nat.add_comm, ← List.length_cons (a := Byte.bracketLeft)]
    exact (hconsumes₁.trans hconsumes₂).right hline
  have hpeek : s.peek 0 = (some Byte.bracketLeft, s) :=
    peek_of_getElem? (by rw [← List.head?_eq_getElem?, hhead])
  simp only [openBracket, hpeek, ne_eq, not_true_eq_false, if_false, hone, hsigns, bind,
    Except.bind, pure, Except.pure]
  by_cases hsecond : (s₂.right (1 + signs.length)).window.unread.head? = some Byte.bracketLeft
  · obtain ⟨s₃, hlast, hconsumes₃, -, -⟩ := take_one_ok hsecond
    have hopener : opener signs.length = Byte.bracketLeft :: signs ++ [Byte.bracketLeft] := by
      rw [opener, ← hreplicate, List.cons_append]
    obtain ⟨d', hstrip, htext, hposition⟩ :=
      strip_ok (d := (d.append [Byte.bracketLeft]).append signs) (n := 1 + signs.length) d.text
        (Byte.bracketLeft :: signs)
        (by simp only [Draft.text_append, List.append_assoc, List.cons_append, List.nil_append])
        (by rw [List.length_cons]; omega)
    simp only [if_pos hsecond, hlast, hstrip]
    refine ⟨_, _, _, rfl, .complete ?_ htext hposition⟩
    rw [hopener]
    exact hpass.trans (hconsumes₃.right (by decide))
  · simp only [if_neg hsecond]
    refine ⟨_, _, _, rfl, .incomplete hpass ?_ rfl ⟨signs.length, by rw [← hreplicate]⟩ ?_⟩
    · simp only [Draft.text_append, List.append_assoc, List.cons_append, List.nil_append]
    · intro rest hrest
      rw [hreplicate, List.cons_append,
        openerLevel?_bracket _ (head?_ne_equals_of_run hrun hrest), hrest.head?_eq hrun.ready]
      exact if_neg hsecond

/-! ## The rounds of a bracket -/

/-- The closer, if there is one. -/
def closingBracket (level : Nat) (closed : Bool) : List UInt8 :=
  if closed then closer level else []

theorem closingBracket_false (level : Nat) : closingBracket level false = [] := rfl

/-- From `s` and `d` the body of a bracket is read to its end at `s'`: the body and its closer are put
on the text of the draft, and whatever lies ahead, the body ends at the first closer. If there is none,
nothing lies ahead, and the draft is finished. -/
def BodyRead (level : Nat) (s : Scanner σ) (d : Draft) (s' : Scanner σ) (r : Draft × Bool) : Prop :=
  ∃ body, s.Passes (body ++ closingBracket level r.2) s' ∧
    r.1.text = d.text ++ (body ++ closingBracket level r.2) ∧ r.1.position = d.position ∧
    (r.2 = false → r.1.kind = .badBracket) ∧
    ∀ rest, s'.window.Ahead rest →
      indexOf? (closer level) (body ++ (closingBracket level r.2 ++ rest)) =
          (if r.2 then some body.length else none) ∧
        (r.2 = false → rest = [])

/-- A body at the end of the input has been read to its end. -/
theorem bodyRead_of_atEnd {s s' : Scanner σ} {d : Draft} {level : Nat} (hsame : s.Passes [] s')
    (hend : s'.window.AtEnd) : BodyRead level s d s' (d.finish .badBracket, false) := by
  refine ⟨[], hsame, ?_, rfl, fun _ => rfl, fun rest hrest => ⟨?_, fun _ => hend.eq_nil hrest⟩⟩
  · rw [Draft.text_finish, closingBracket_false, List.append_nil, List.append_nil]
  · rw [hend.eq_nil hrest]
    rfl

/-- A body that a closer ends has been read to its end. -/
theorem bodyRead_of_closer {s s' : Scanner σ} {d d' : Draft} {level : Nat} {run : List UInt8}
    (hpass : s.Passes (run ++ closer level) s') (hother : ∀ b ∈ run, b ≠ Byte.bracketRight)
    (htext : d'.text = d.text ++ (run ++ closer level)) (hposition : d'.position = d.position) :
    BodyRead level s d s' (d', true) := by
  have hclosed : true ≠ false := by decide
  refine ⟨run, hpass, htext, hposition, fun hopen => absurd hopen hclosed,
    fun rest _ => ⟨?_, fun hopen => absurd hopen hclosed⟩⟩
  have hclose : indexOf? (closer level) (closingBracket level true ++ rest) = some 0 :=
    indexOf?_closer_self level rest
  rw [indexOf?_closer_append level hother, hclose, Option.map_some, Nat.zero_add]
  rfl

/-- A body goes on after a stretch in which no closer begins. -/
theorem BodyRead.of_stretch {s s₁ s' : Scanner σ} {d d₁ : Draft} {level : Nat} {r : Draft × Bool}
    {stretch : List UInt8} (hpass : s.Passes stretch s₁) (htext : d₁.text = d.text ++ stretch)
    (hposition : d₁.position = d.position)
    (hindex : ∀ rest, s₁.window.Ahead rest → indexOf? (closer level) (stretch ++ rest) =
      (indexOf? (closer level) rest).map (· + stretch.length))
    (h : BodyRead level s₁ d₁ s' r) : BodyRead level s d s' r := by
  obtain ⟨body, hmore, htext', hposition', hkind, hclose⟩ := h
  refine ⟨stretch ++ body, ?_, ?_, hposition'.trans hposition, hkind, fun rest hrest => ?_⟩
  · rw [List.append_assoc]
    exact hpass.trans hmore
  · rw [htext', htext, List.append_assoc, List.append_assoc]
  · obtain ⟨hbody, hend⟩ := hclose rest hrest
    refine ⟨?_, hend⟩
    have hahead := hmore.ahead hrest
    rw [List.append_assoc] at hahead
    rw [List.append_assoc, hindex _ hahead, hbody]
    split
    · rw [Option.map_some, List.length_append, Nat.add_comm]
    · rfl

/-- A body goes on after bytes other than closing brackets. -/
theorem BodyRead.of_other {s s₁ s' : Scanner σ} {d : Draft} {level : Nat} {r : Draft × Bool}
    {run : List UInt8} (hpass : s.Passes run s₁) (hother : ∀ b ∈ run, b ≠ Byte.bracketRight)
    (h : BodyRead level s₁ (d.append run) s' r) : BodyRead level s d s' r :=
  h.of_stretch hpass (Draft.text_append d run) rfl
    fun rest _ => indexOf?_closer_append level hother rest

/-- A closing bracket behind other bytes, which have all been passed and are on the draft, begins the
closer that ends the body, or it is part of the body with its equals signs. -/
theorem bracketCandidate_handsOn {s s₁ : Scanner σ} {d : Draft} {run : List UInt8} (level : Nat)
    (hpass : s.Passes (run ++ [Byte.bracketRight]) s₁)
    (hother : ∀ b ∈ run, b ≠ Byte.bracketRight) :
    ∃ r, bracketCandidate level s₁ (d.append (run ++ [Byte.bracketRight])) = .ok r ∧
      r.HandsOn (BodyRead level) s d := by
  obtain ⟨signs, s₂, htake, hconsumes, hequals⟩ := s₁.takeRun_ok (· == Byte.equals)
  have hreplicate := eq_replicate_of_run hequals
  have hcandidate := hpass.trans (hconsumes.right (not_mem_of_all hequals.all (by decide)))
  have hsplit : run ++ [Byte.bracketRight] ++ signs = run ++ Byte.bracketRight :: signs := by
    rw [List.append_assoc, List.cons_append, List.nil_append]
  rw [hsplit] at hcandidate
  simp only [bracketCandidate, htake, bind, Except.bind, pure, Except.pure]
  by_cases hclose : signs.length = level ∧
      (s₂.right signs.length).window.unread.head? = some Byte.bracketRight
  · obtain ⟨s₃, hlast, hconsumes₃, -, -⟩ := take_one_ok hclose.2
    have hcloser : closer level = Byte.bracketRight :: signs ++ [Byte.bracketRight] := by
      rw [closer, ← hclose.1, ← hreplicate, List.cons_append]
    simp only [if_pos hclose, hlast]
    refine ⟨_, rfl, bodyRead_of_closer ?_ hother ?_ rfl⟩
    · rw [hcloser, ← List.append_assoc]
      exact hcandidate.trans (hconsumes₃.right (by decide))
    · rw [hcloser]
      simp only [Draft.text_append, List.append_assoc, List.cons_append, List.nil_append]
  · simp only [if_neg hclose]
    refine ⟨_, rfl, fun s' r => BodyRead.of_stretch hcandidate ?_ rfl ?_⟩
    · rw [Draft.text_append, Draft.text_append, List.append_assoc, hsplit]
    · intro rest hrest
      have hfail : ¬ (signs.length = level ∧ rest.head? = some Byte.bracketRight) := by
        rw [hrest.head?_eq hequals.ready]
        exact hclose
      rw [List.append_assoc, indexOf?_closer_append level hother, List.cons_append, hreplicate,
        indexOf?_closer_candidate level _ (head?_ne_equals_of_run hequals hrest) hfail,
        Option.map_map]
      congr 1
      funext n
      simp only [Function.comp_apply, List.length_append, List.length_cons, List.length_replicate]
      omega

/-- Bytes that are plain inside a bracket are no closing brackets. -/
theorem ne_bracketRight_of_plain {run : List UInt8} (h : ∀ b ∈ run, isPlainInBracket b = true) :
    ∀ b ∈ run, b ≠ Byte.bracketRight := by
  rintro b hb rfl
  exact absurd (h _ hb) (by decide)

/-- Each round of a bracket either ends its body or adds a stretch to it. -/
theorem bracketRound_handsOn (level : Nat) (s : Scanner σ) (d : Draft) :
    ∃ r, bracketRound level s d = .ok r ∧ r.HandsOn (BodyRead level) s d := by
  obtain ⟨run, stop, s₁, hfront, hlook, hcase⟩ := s.front_ok isPlainInBracket
  simp only [bracketRound, hfront]
  cases hcase with
  | ended hend => exact ⟨_, rfl, bodyRead_of_atEnd hlook.passes_nil hend⟩
  | whole hne hall hunread =>
    obtain ⟨s₂, htake, hpass, -⟩ :=
      hlook.take_right (by rw [hunread, List.append_nil]) (not_mem_of_all hall (by decide))
    simp only [if_neg hne, htake, bind, Except.bind, pure, Except.pure]
    exact ⟨_, rfl, fun s' r => BodyRead.of_other hpass (ne_bracketRight_of_plain hall)⟩
  | @stopped run later stop hall hother hunread =>
    obtain ⟨s₂, htake, htaken⟩ := take_succ_ok hunread
    have hconsumes : s.Consumes (run ++ [stop]) s₂ := hlook.trans htaken
    have hline : Byte.newline ∉ run := not_mem_of_all hall (by decide)
    simp only [htake, bind, Except.bind, pure, Except.pure]
    by_cases hnewline : stop = Byte.newline
    · rw [hnewline] at hconsumes ⊢
      rw [if_pos rfl]
      refine ⟨_, rfl, fun s' r => BodyRead.of_other (hconsumes.nextLine hline) ?_⟩
      intro b hb
      rcases List.mem_append.1 hb with hb | hb
      · exact ne_bracketRight_of_plain hall b hb
      · rw [List.mem_singleton.1 hb]
        decide
    · have hbracket : stop = Byte.bracketRight := by
        simp only [isPlainInBracket, Bool.and_eq_false_iff, bne_eq_false_iff_eq] at hother
        exact hother.resolve_right hnewline
      rw [if_neg hnewline]
      rw [hbracket] at hconsumes ⊢
      have hline' : Byte.newline ∉ run ++ [Byte.bracketRight] := by
        rw [List.mem_append, not_or]
        exact ⟨hline, by decide⟩
      have hpass := hconsumes.right hline'
      rw [List.length_append, List.length_singleton] at hpass
      exact bracketCandidate_handsOn level hpass (ne_bracketRight_of_plain hall)

/-- Reading on from after the opener succeeds and reads the body to its end. -/
theorem bracketBody_ok (level : Nat) (s : Scanner σ) (d : Draft) :
    ∃ s' d' closed, bracketBody level s d = .ok (s', d', closed) ∧
      BodyRead level s d s' (d', closed) := by
  obtain ⟨s', ⟨d', closed⟩, hok, hread⟩ :=
    repeatUntilDone_rule (bracketRound_advances level).progresses (bracketRound_handsOn level) s d
  exact ⟨s', d', closed, hok, hread⟩

/-! ## The token of a bracket -/

/-- From `s` and `d` a bracket is read to its end at `s'` and `d'`: its body is put on the text of the
draft, and whatever lies ahead, the body ends at the first closer. If there is none, nothing lies
ahead. -/
def BracketRead (level : Nat) (kind : Kind) (s : Scanner σ) (d : Draft) (s' : Scanner σ)
    (d' : Draft) : Prop :=
  ∃ body closed, s.Passes (body ++ closingBracket level closed) s' ∧
    d'.token = ⟨if closed then kind else .badBracket, d.text ++ body, d.position⟩ ∧
    ∀ rest, s'.window.Ahead rest →
      indexOf? (closer level) (body ++ (closingBracket level closed ++ rest)) =
          (if closed then some body.length else none) ∧
        (closed = false → rest = [])

/-- A bracket that is not closed is read with its body. -/
theorem BodyRead.bracketRead {s s' : Scanner σ} {d d' : Draft} {level : Nat}
    (h : BodyRead level s d s' (d', false)) (kind : Kind) : BracketRead level kind s d s' d' := by
  obtain ⟨body, hpass, htext, hposition, hkind, hclose⟩ := h
  refine ⟨body, false, hpass, ?_, hclose⟩
  rw [closingBracket_false, List.append_nil] at htext
  rw [Draft.token, htext, hposition, hkind rfl]
  rfl

/-- The closer of a body that has been read to its end can be taken off, and this leaves the body. -/
theorem closeBracket_ok {s s' : Scanner σ} {d d₁ : Draft} {level : Nat} (kind : Kind)
    (h : BodyRead level s d s' (d₁, true)) :
    ∃ d', closeBracket level kind d₁ = .ok d' ∧ BracketRead level kind s d s' d' := by
  obtain ⟨body, hpass, htext, hposition, -, hclose⟩ := h
  have hlength : level + 2 = (closingBracket level true).length := by
    simp only [closingBracket, if_true, closer, List.length_cons, List.length_append,
      List.length_replicate, List.length_nil]
  obtain ⟨d', hstrip, htext', hposition'⟩ :=
    strip_ok (d := d₁) (d.text ++ body) (closingBracket level true)
      (by rw [htext, List.append_assoc]) hlength
  refine ⟨d'.finish kind, ?_, body, true, hpass, ?_, hclose⟩
  · simp only [closeBracket, hstrip, bind, Except.bind, pure, Except.pure]
  · rw [Draft.token, Draft.text_finish, Draft.position_finish, htext', hposition', hposition]
    rfl

end Scanner

end Listfile
