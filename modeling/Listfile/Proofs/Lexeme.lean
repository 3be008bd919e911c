import Listfile.Proofs.Scanner.Run

/-!
# How tokens are written

A token keeps its kind, its text and where it starts. This module says which bytes of the input it
stands for.

* `Token.Spells`: the lexeme of a token, kind by kind. It is the text itself, or the text between
  delimiters, or a body from which the line continuations are left out.
* `Token.Lexeme`: a lexeme together with what can come after it. Two blanks are torn apart only if
  the first is escaped, and what is not closed reaches to the end of the input.
* `Skipped`: what may stand before a lexeme, that is, line comments and perhaps blanks.
* `Token.ComesFrom`: the kind and the text are those of the segment that begins with the lexeme.

`Scans.cut` puts them together: one call consumes a stretch that is skipped and then a lexeme of the
token that it gives. The proof looks at one segment at a time (`Segment.Bounded`).
-/

namespace Listfile

/-! ## Lexemes -/

/-- The bytes of the input that a token stands for, by its kind. -/
def Token.Spells (t : Token) (lexeme : List UInt8) : Prop :=
  match t.kind with
  | .nothing => lexeme = []
  | .space => lexeme = t.text ∧ ∀ b ∈ lexeme, Byte.isBlank b = true
  | .newline | .parenLeft | .parenRight | .identifier | .unquoted | .badCharacter =>
    lexeme = t.text
  | .quoted => ∃ body, lexeme = Byte.quote :: (body ++ [Byte.quote]) ∧
      t.text = withoutContinuations body
  | .badString => ∃ body, lexeme = Byte.quote :: body ∧ t.text = withoutContinuations body
  | .bracket => ∃ level, lexeme = opener level ++ t.text ++ closer level
  | .bracketComment => ∃ level, lexeme = Byte.hash :: (opener level ++ t.text ++ closer level)
  | .badBracket => ∃ level, lexeme = opener level ++ t.text ∨
      lexeme = Byte.hash :: (opener level ++ t.text)

/-- If the last of these bytes is a blank, then a backslash stands before it. -/
def EndsEscaped (bytes : List UInt8) : Prop :=
  ∀ front b, bytes = front ++ [b] → Byte.isBlank b = true → [Byte.backslash] <:+ front

/-- The token `t` is written as `lexeme`, and `rest` follows. -/
structure Token.Lexeme (t : Token) (lexeme rest : List UInt8) : Prop where
  /-- The lexeme fits the kind and the text. -/
  spells : t.Spells lexeme
  /-- It has bytes, unless the token is the end of the input. -/
  ne_nil : t.kind ≠ .nothing → lexeme ≠ []
  /-- The end of the input and what is not closed are the last of the input. -/
  last : t.kind = .nothing ∨ t.kind = .badString ∨ t.kind = .badBracket → rest = []
  /-- A blank at the end is not followed by another one, unless it is escaped. -/
  apart : ∀ b, rest.head? = some b → Byte.isBlank b = true → EndsEscaped lexeme

/-- The body of a line comment: it stays on its line, and it is no bracket comment. -/
structure IsCommentBody (body : List UInt8) : Prop where
  /-- A newline ends the comment. -/
  line : Byte.newline ∉ body
  /-- No opener follows the hash. -/
  opener : ∀ level, ¬ opener level <+: body

/-- The bytes of `gap`, before `rest`, have no token: they are line comments, each with the newline
that ends it, and, if blank runs are no tokens, blanks. Only at the end of the input may a comment
lack its newline. -/
inductive Skipped (emitSpace : Bool) : List UInt8 → List UInt8 → Prop where
  /-- Nothing is skipped. -/
  | none (rest : List UInt8) : Skipped emitSpace [] rest
  /-- A blank is skipped. -/
  | blank {b : UInt8} {gap rest : List UInt8} (silent : emitSpace = false)
      (isBlank : Byte.isBlank b = true) (later : Skipped emitSpace gap rest) :
      Skipped emitSpace (b :: gap) rest
  /-- A line comment is skipped. -/
  | comment {body gap rest : List UInt8} (isBody : IsCommentBody body)
      (later : Skipped emitSpace gap rest) :
      Skipped emitSpace (Byte.hash :: (body ++ Byte.newline :: gap)) rest
  /-- The input ends with a line comment. -/
  | lastComment {body : List UInt8} (isBody : IsCommentBody body) :
      Skipped emitSpace (Byte.hash :: body) []

/-- A run of blanks can be skipped if blank runs are no tokens. -/
theorem Skipped.blanks {run gap rest : List UInt8} (hrun : ∀ b ∈ run, Byte.isBlank b = true)
    (h : Skipped false gap rest) : Skipped false (run ++ gap) rest := by
  induction run with
  | nil => exact h
  | cons b run ih =>
    refine .blank rfl (hrun b List.mem_cons_self) (ih ?_)
    intro c hc
    exact hrun c (List.mem_cons_of_mem b hc)

/-- The offsets at which a gap and a lexeme are cut off, after what is done already. -/
theorem offsets_of_append {b done gap lexeme rest : List UInt8}
    (h : b = done ++ (gap ++ (lexeme ++ rest))) :
    b.extract done.length (done ++ gap).length = gap ∧
      b.drop (done ++ gap).length = lexeme ++ rest ∧
      b.extract (done ++ gap).length (done ++ gap ++ lexeme).length = lexeme ∧
      b.drop (done ++ gap ++ lexeme).length = rest := by
  have hbetween : ∀ front middle later : List UInt8,
      (front ++ (middle ++ later)).extract front.length (front ++ middle).length = middle := by
    intro front middle later
    rw [List.extract_eq_take_drop, List.drop_left, List.length_append, Nat.add_sub_cancel_left,
      List.take_left]
  have hstart : b = done ++ gap ++ (lexeme ++ rest) := by rw [h, List.append_assoc]
  have hstop : b = done ++ gap ++ lexeme ++ rest := by rw [hstart, List.append_assoc (done ++ gap)]
  refine ⟨?_, ?_, ?_, ?_⟩
  · rw [h]
    exact hbetween done gap (lexeme ++ rest)
  · rw [hstart]
    exact List.drop_left
  · rw [hstart]
    exact hbetween (done ++ gap) lexeme rest
  · rw [hstop]
    exact List.drop_left

/-! ## Blanks at the end -/

/-- No bytes end with a blank. -/
theorem endsEscaped_nil : EndsEscaped [] := by
  intro front b hsplit _
  have hlength := congrArg List.length hsplit
  rw [List.length_append, List.length_singleton, List.length_nil] at hlength
  omega

/-- Bytes whose last one is no blank. -/
theorem endsEscaped_of_last (front : List UInt8) {b : UInt8} (h : Byte.isBlank b = false) :
    EndsEscaped (front ++ [b]) := by
  intro front' c hsplit hc
  obtain ⟨-, hsame⟩ := List.append_inj' hsplit rfl
  cases hsame
  rw [h] at hc
  cases hc

/-- An escaped byte may be a blank. -/
theorem endsEscaped_pair (b : UInt8) : EndsEscaped [Byte.backslash, b] := by
  intro front c hsplit _
  change [Byte.backslash] ++ [b] = front ++ [c] at hsplit
  obtain ⟨hfront, -⟩ := List.append_inj' hsplit rfl
  subst hfront
  exact List.suffix_rfl

/-- What comes before does not change how bytes end, if there are any. -/
theorem EndsEscaped.append {bytes : List UInt8} (h : EndsEscaped bytes) (hne : bytes ≠ [])
    (front : List UInt8) : EndsEscaped (front ++ bytes) := by
  intro front' b hsplit hb
  rw [← List.dropLast_concat_getLast hne, ← List.append_assoc] at hsplit
  obtain ⟨hfront, hlast⟩ := List.append_inj' hsplit rfl
  rw [← List.cons.inj hlast |>.1] at hb
  have hescaped := h _ _ (List.dropLast_concat_getLast hne).symm hb
  rw [← hfront]
  exact hescaped.trans (List.suffix_append _ _)

/-- A word ends with a blank only if the blank is escaped. -/
theorem endsEscaped_word (input : List UInt8) : EndsEscaped (input.take (wordLength input)) := by
  fun_induction wordLength input with
  | case4 c rest _ ih =>
    rw [List.take_succ_cons, List.take_succ_cons]
    by_cases hnil : rest.take (wordLength rest) = []
    · rw [hnil]
      exact endsEscaped_pair c
    · exact ih.append hnil [Byte.backslash, c]
  | case5 b rest _ hbare ih =>
    rw [List.take_succ_cons]
    by_cases hnil : rest.take (wordLength rest) = []
    · rw [hnil]
      exact endsEscaped_of_last [] (Byte.isBlank_eq_false_of_isBare hbare)
    · exact ih.append hnil [b]
  | _ => exact endsEscaped_nil

/-! ## Where segments end -/

/-- What a segment that comes first says about its bytes and about `rest`, the bytes after it. -/
def Segment.Bounded (rest : List UInt8) : Segment → Prop
  | blank run => (∀ b ∈ run, Byte.isBlank b = true) ∧
      ∀ b, rest.head? = some b → Byte.isBlank b = false
  | lineComment body ended => IsCommentBody body ∧ (ended = false → rest = [])
  | word bytes => EndsEscaped bytes
  | quoted _ closed => closed = false → rest = []
  | bracket _ _ _ closed => closed = false → rest = []
  | stray b => Byte.isBlank b = false
  | newline | parenLeft | parenRight => True

/-- Nothing comes after bytes that are as long as the input. -/
theorem eq_nil_of_length_le {bytes rest input : List UInt8} (h : bytes ++ rest = input)
    (hlength : input.length ≤ bytes.length) : rest = [] := by
  rw [← h, List.length_append] at hlength
  exact List.eq_nil_of_length_eq_zero (by omega)

namespace Segment

/-- A line comment without an opener is bounded by its newline or the end of the input. -/
theorem bounded_lineCommentOf {tail rest : List UInt8} (hopener : openerLevel? tail = none)
    (h : (lineCommentOf tail).spelling ++ rest = Byte.hash :: tail) :
    (lineCommentOf tail).Bounded rest := by
  refine ⟨⟨?_, ?_⟩, ?_⟩
  · intro hmem
    have hne := List.all_eq_true.1 List.all_takeWhile _ hmem
    exact absurd hne (by decide)
  · rintro level ⟨more, hmore⟩
    -- An opener in the body would be found in the whole rest of the line.
    obtain ⟨later, hlater⟩ := List.takeWhile_prefix (l := tail) (· != Byte.newline)
    rw [← hlater, ← hmore, List.append_assoc, openerLevel?_opener_append] at hopener
    cases hopener
  · intro hended
    apply eq_nil_of_length_le h
    have hlength : ¬ (tail.takeWhile (· != Byte.newline)).length < tail.length := by
      simpa using hended
    simp only [lineCommentOf, spelling, List.length_cons, List.length_append]
    omega

/-- A quoted stretch that is not closed reaches to the end of the input. -/
theorem bounded_quotedOf {tail rest : List UInt8}
    (h : (quotedOf tail).spelling ++ rest = Byte.quote :: tail) : (quotedOf tail).Bounded rest := by
  unfold quotedOf at h ⊢
  split
  · intro hclosed
    cases hclosed
  · rename_i hnone
    intro _
    rw [hnone] at h
    apply eq_nil_of_length_le h
    simp [spelling]

/-- A bracket that is not closed reaches to the end of the input. -/
theorem bounded_bracketOf {comment : Bool} {level : Nat} {body rest input : List UInt8}
    (hinput : input.length ≤ (if comment then 1 else 0) + (level + 2) + body.length)
    (h : (bracketOf comment level body).spelling ++ rest = input) :
    (bracketOf comment level body).Bounded rest := by
  unfold bracketOf at h ⊢
  split
  · intro hclosed
    cases hclosed
  · rename_i hnone
    intro _
    rw [hnone] at h
    refine eq_nil_of_length_le h (Nat.le_trans hinput ?_)
    cases comment <;> simp [spelling, opener] <;> omega

/-- A segment that comes first is bounded. -/
theorem bounded_of_first? {seg : Segment} {rest : List UInt8}
    (h : first? (seg.spelling ++ rest) = some seg) : seg.Bounded rest := by
  generalize hinput : seg.spelling ++ rest = input at h
  cases input with
  | nil => cases h
  | cons b tail =>
    cases starts_of_first? h with
    | blank hblank =>
      have hrest : rest = (b :: tail).dropWhile Byte.isBlank := by
        have hsplit := List.takeWhile_append_dropWhile (p := Byte.isBlank) (l := b :: tail)
        exact List.append_cancel_left (hinput.trans hsplit.symm)
      refine ⟨fun c hc => List.all_eq_true.1 List.all_takeWhile c hc, fun c hc => ?_⟩
      have hnot := List.head?_dropWhile_not Byte.isBlank (b :: tail)
      rw [← hrest, hc] at hnot
      simpa using hnot
    | newline => trivial
    | parenLeft => trivial
    | parenRight => trivial
    | bracketComment hhash hopener =>
      refine bounded_bracketOf ?_ hinput
      simp only [List.length_cons, List.length_drop, if_true]
      omega
    | lineComment hhash hopener =>
      rw [hhash] at hinput
      exact bounded_lineCommentOf hopener hinput
    | quoted hquote =>
      rw [hquote] at hinput
      exact bounded_quotedOf hinput
    | bracket hopener =>
      refine bounded_bracketOf ?_ hinput
      simp only [List.length_cons, List.length_drop, Bool.false_eq_true, if_false]
      omega
    | stray hordinary _ => exact hordinary.blank
    | word => exact endsEscaped_word (b :: tail)

/-- Where a bounded segment ends, two blanks are torn apart only if the first is escaped. -/
theorem Bounded.apart {seg : Segment} {rest : List UInt8} (h : seg.Bounded rest) {b : UInt8}
    (hhead : rest.head? = some b) (hblank : Byte.isBlank b = true) : EndsEscaped seg.spelling := by
  have hne : rest ≠ [] := by
    rintro rfl
    cases hhead
  cases seg with
  | blank run =>
    rw [h.2 b hhead] at hblank
    cases hblank
  | lineComment body ended =>
    cases ended with
    | false => exact absurd (h.2 rfl) hne
    | true => exact endsEscaped_of_last (Byte.hash :: body) (by decide)
  | newline => exact endsEscaped_of_last [] (by decide)
  | parenLeft => exact endsEscaped_of_last [] (by decide)
  | parenRight => exact endsEscaped_of_last [] (by decide)
  | word bytes => exact h
  | quoted body closed =>
    cases closed with
    | false => exact absurd (h rfl) hne
    | true => exact endsEscaped_of_last (Byte.quote :: body) (by decide)
  | bracket comment level body closed =>
    cases closed with
    | false => exact absurd (h rfl) hne
    | true =>
      have hcloser : EndsEscaped (closer level) :=
        endsEscaped_of_last (Byte.bracketRight :: List.replicate level Byte.equals) (by decide)
      exact hcloser.append (List.cons_ne_nil _ _) _
  | stray c => exact endsEscaped_of_last [] h

end Segment

/-! ## Tokens and their segments -/

/-- A token spells the segment that it comes from. -/
theorem Token.spells_of_kind? {t : Token} {seg : Segment} {rest : List UInt8} {depth : Nat}
    (hkind : seg.kind? depth = some t.kind) (htext : t.text = seg.text)
    (hbounded : seg.Bounded rest) : t.Spells seg.spelling := by
  cases seg with
  | blank run =>
    rw [Spells, ← Option.some.inj hkind]
    exact ⟨htext.symm, hbounded.1⟩
  | lineComment body ended => cases hkind
  | newline =>
    rw [Spells, ← Option.some.inj hkind]
    exact htext.symm
  | parenLeft =>
    rw [Spells, ← Option.some.inj hkind]
    exact htext.symm
  | parenRight =>
    rw [Spells, ← Option.some.inj hkind]
    exact htext.symm
  | word bytes =>
    rw [Spells, ← Option.some.inj hkind]
    rcases Kind.ofWord_cases depth bytes with hword | hword <;> rw [hword] <;> exact htext.symm
  | quoted body closed =>
    rw [Spells, ← Option.some.inj hkind]
    cases closed with
    | false => exact ⟨body, by simp [Segment.spelling], htext⟩
    | true => exact ⟨body, rfl, htext⟩
  | bracket comment level body closed =>
    rw [Spells, ← Option.some.inj hkind]
    rw [htext]
    cases closed with
    | false =>
      cases comment with
      | false => exact ⟨level, .inl (by simp [Segment.spelling, Segment.text])⟩
      | true => exact ⟨level, .inr (by simp [Segment.spelling, Segment.text])⟩
    | true =>
      cases comment with
      | false => exact ⟨level, rfl⟩
      | true => exact ⟨level, rfl⟩
  | stray b =>
    rw [Spells, ← Option.some.inj hkind]
    exact htext.symm

/-- A segment whose token says that it is not closed is the last of the input. -/
theorem Segment.Bounded.last {seg : Segment} {rest : List UInt8} {depth : Nat} {kind : Kind}
    (hbounded : seg.Bounded rest) (hkind : seg.kind? depth = some kind)
    (h : kind = .badString ∨ kind = .badBracket) : rest = [] := by
  cases seg with
  | quoted body closed =>
    cases closed with
    | false => exact hbounded rfl
    | true =>
      cases hkind
      rcases h with h | h <;> cases h
  | bracket comment level body closed =>
    cases closed with
    | false => exact hbounded rfl
    | true => cases hkind; cases comment <;> rcases h with h | h <;> cases h
  | word bytes =>
    cases hkind
    rcases Kind.ofWord_cases depth bytes with hword | hword <;> rw [hword] at h <;>
      rcases h with h | h <;> cases h
  | _ => cases hkind <;> rcases h with h | h <;> cases h

/-- A bounded segment is the lexeme of its token. -/
theorem Context.lexeme_of_token? {c : Context} {emitSpace : Bool} {seg : Segment} {t : Token}
    {rest : List UInt8} (h : c.token? emitSpace seg = some t) (hne : seg.spelling ≠ [])
    (hbounded : seg.Bounded rest) : t.Lexeme seg.spelling rest := by
  obtain ⟨hkind, htext, -, -⟩ := Context.eq_of_token? h
  refine ⟨t.spells_of_kind? hkind htext hbounded, fun _ => hne, ?_, ?_⟩
  · rintro (hnothing | hopen)
    · exact absurd hnothing (Context.kind_ne_nothing_of_token? h)
    · exact hbounded.last hkind hopen
  · intro b hhead hblank
    exact hbounded.apart hhead hblank

/-- A segment without a token is skipped. -/
theorem Segment.Bounded.skipped {c : Context} {emitSpace : Bool} {seg : Segment}
    {gap rest : List UInt8} (hbounded : seg.Bounded (gap ++ rest))
    (h : c.token? emitSpace seg = none) (hlater : Skipped emitSpace gap rest) :
    Skipped emitSpace (seg.spelling ++ gap) rest := by
  cases seg with
  | blank run =>
    obtain rfl : emitSpace = false := by simpa [Context.token?, Segment.kind?] using h
    exact hlater.blanks hbounded.1
  | lineComment body ended =>
    cases ended with
    | false =>
      obtain ⟨rfl, rfl⟩ := List.append_eq_nil_iff.1 (hbounded.2 rfl)
      simp only [Segment.spelling, Bool.false_eq_true, if_false, List.append_nil]
      exact .lastComment hbounded.1
    | true =>
      simp only [Segment.spelling, if_true, List.cons_append, List.append_assoc, List.nil_append]
      exact .comment hbounded.1 hlater
  | word bytes =>
    rw [Context.token?_of_ne_space rfl (Kind.ofWord_ne_space _ _)] at h
    cases h
  | quoted body closed => cases closed <;> cases h
  | bracket comment level body closed => cases comment <;> cases closed <;> cases h
  | _ => cases h

/-- The token `t` is that of the segment with which the input begins, where `depth` parentheses are
open. If nothing is left of the input, it is the end. -/
def Token.ComesFrom (t : Token) (depth : Nat) (input : List UInt8) : Prop :=
  match Segment.first? input with
  | none => t.kind = .nothing
  | some seg => seg.kind? depth = some t.kind ∧ t.text = seg.text

/-- A segment without a token opens and closes no parenthesis. -/
theorem Context.depth_next_of_silent {c : Context} {emitSpace : Bool} {seg : Segment}
    (h : c.token? emitSpace seg = none) : (c.next seg).depth = c.depth := by
  simp only [next]
  simp only [token?] at h
  cases hkind : seg.kind? c.depth with
  | none => rfl
  | some kind =>
    obtain ⟨rfl, -⟩ : kind = .space ∧ emitSpace = false := by simpa [hkind] using h
    rfl

/-- A segment with a token opens and closes what its token does. -/
theorem Context.depth_next_of_token? {c : Context} {emitSpace : Bool} {seg : Segment} {t : Token}
    (h : c.token? emitSpace seg = some t) : (c.next seg).depth = t.kind.depthAfter c.depth := by
  simp only [next, (eq_of_token? h).1]

namespace Scanner

variable {σ : Type} [Source σ]

/-! ## One call -/

/-- Reading a segment moves past its bytes. -/
theorem Reads.position {s s' : Scanner σ} {seg : Segment} (h : s.Reads seg s') :
    s'.position = s.position.advance seg.spelling :=
  congrArg Context.position h.context

/-- A segment that is read is bounded by what lies ahead of it. -/
theorem Reads.bounded {s s' : Scanner σ} {seg : Segment} {rest : List UInt8} (h : s.Reads seg s')
    (hrest : s'.window.Ahead rest) : seg.Bounded rest :=
  Segment.bounded_of_first? (h.first rest hrest)

/-- The scanner `s` becomes `s'` by skipping `gap` and reading the token `t` from `lexeme`, before
`rest`. -/
structure Cut (s : Scanner σ) (t : Token) (s' : Scanner σ) (gap lexeme rest : List UInt8) :
    Prop where
  /-- The window has gone along a path over both. -/
  path : s.window.Path (gap ++ lexeme) s'.window
  /-- The token starts where the gap ends. -/
  start : t.position = s.position.advance gap
  /-- Scanning goes on where the lexeme ends. -/
  stop : s'.position = s.position.advance (gap ++ lexeme)
  /-- Blank runs are tokens if they were before. -/
  emitSpace : s'.emitSpace = s.emitSpace
  /-- The token alone decides how many parentheses are open afterwards. -/
  depth : s'.depth = t.kind.depthAfter s.depth
  /-- The gap has no token. -/
  skipped : Skipped s.emitSpace gap (lexeme ++ rest)
  /-- The token is that of the segment which begins behind the gap. -/
  comesFrom : t.ComesFrom s.depth (lexeme ++ rest)
  /-- The token is written as the lexeme. -/
  lexeme : t.Lexeme lexeme rest
  /-- A blank run is a token only if the settings say so. -/
  space : t.kind = .space → s.emitSpace = true

/-- A segment without a token belongs to the gap before the lexeme that comes later. -/
theorem Cut.of_skip {s s₁ s' : Scanner σ} {seg : Segment} {t : Token} {gap lexeme rest : List UInt8}
    (hcut : s₁.Cut t s' gap lexeme rest) (hreads : s.Reads seg s₁)
    (hsilent : s.context.token? s.emitSpace seg = none) (hrest : s'.window.Ahead rest) :
    s.Cut t s' (seg.spelling ++ gap) lexeme rest := by
  have hbounded := hreads.bounded (hcut.path.ahead hrest)
  rw [List.append_assoc] at hbounded
  have hdepth : s₁.depth = s.depth :=
    (congrArg Context.depth hreads.context).trans (Context.depth_next_of_silent hsilent)
  refine ⟨?_, ?_, ?_, ?_, ?_, ?_, ?_, hcut.lexeme, ?_⟩
  · rw [List.append_assoc]
    exact hreads.path.trans hcut.path
  · rw [Position.advance_append, ← hreads.position]
    exact hcut.start
  · rw [List.append_assoc, Position.advance_append, ← hreads.position]
    exact hcut.stop
  · exact hcut.emitSpace.trans hreads.emitSpace
  · rw [← hdepth]
    exact hcut.depth
  · have hskipped := hcut.skipped
    rw [hreads.emitSpace] at hskipped
    exact hbounded.skipped hsilent hskipped
  · rw [← hdepth]
    exact hcut.comesFrom
  · intro hspace
    rw [← hreads.emitSpace]
    exact hcut.space hspace

/-- A segment with a token is its lexeme, and there is no gap. -/
theorem Reads.cut {s s' : Scanner σ} {seg : Segment} {t : Token} {rest : List UInt8}
    (hreads : s.Reads seg s') (htoken : s.context.token? s.emitSpace seg = some t)
    (hrest : s'.window.Ahead rest) : s.Cut t s' [] seg.spelling rest := by
  have hfirst := hreads.first rest hrest
  have hdepth : s'.depth = t.kind.depthAfter s.depth :=
    (congrArg Context.depth hreads.context).trans (Context.depth_next_of_token? htoken)
  have hlexeme := Context.lexeme_of_token? htoken (Segment.spelling_ne_nil_of_first? hfirst)
    (hreads.bounded hrest)
  obtain ⟨hkind, htext, hposition, hspace⟩ := Context.eq_of_token? htoken
  refine ⟨hreads.path, hposition, hreads.position, hreads.emitSpace, hdepth, .none _, ?_, hlexeme,
    hspace⟩
  rw [Token.ComesFrom, hfirst]
  exact ⟨hkind, htext⟩

/-- At the end of the input neither a gap nor a lexeme is left. -/
theorem Passes.cut_of_atEnd {s s' : Scanner σ} {rest : List UInt8} (hpass : s.Passes [] s')
    (hend : s'.window.AtEnd) (hrest : s'.window.Ahead rest) :
    s.Cut ⟨.nothing, [], s.position⟩ s' [] [] rest := by
  obtain rfl : rest = [] := hend.eq_nil hrest
  refine ⟨hpass.path, rfl, hpass.position, hpass.emitSpace, hpass.depth, .none _, rfl, ?_, ?_⟩
  · refine ⟨rfl, fun hnothing => absurd rfl hnothing, fun _ => rfl, ?_⟩
    intro b _ _
    exact endsEscaped_nil
  · intro hspace
    cases hspace

/-- One call cuts off a gap and a lexeme. -/
theorem Scans.cut {s s' : Scanner σ} {t : Token} {rest : List UInt8} (h : s.Scans t s')
    (hrest : s'.window.Ahead rest) : ∃ gap lexeme, s.Cut t s' gap lexeme rest := by
  induction h with
  | @skip s s₁ s' seg t hreads hsilent _ ih =>
    obtain ⟨gap, lexeme, hcut⟩ := ih hrest
    exact ⟨_, lexeme, hcut.of_skip hreads hsilent hrest⟩
  | @found s s' seg t hreads htoken => exact ⟨[], seg.spelling, hreads.cut htoken hrest⟩
  | ended hpass hend => exact ⟨[], [], hpass.cut_of_atEnd hend hrest⟩

/-- One call cuts a gap and a lexeme off the input held, and the scanner holds the rest. -/
theorem Holds.cut {s : Scanner σ} {d : Draft} {input : List UInt8} (h : s.Holds d input) :
    ∃ gap lexeme rest, input = gap ++ (lexeme ++ rest) ∧
      s.Cut (Scanner.next s d).2.token (Scanner.next s d).1 gap lexeme rest ∧
      (Scanner.next s d).1.Holds (Scanner.next s d).2 rest := by
  obtain ⟨bytes, hpath, -, -⟩ := (next_scans s d).agrees
  obtain ⟨rest, hinput, hrest⟩ := h.next hpath
  obtain ⟨gap, lexeme, hcut⟩ := (next_scans s d).cut hrest.ahead
  refine ⟨gap, lexeme, rest, ?_, hcut, hrest⟩
  rw [hinput, hpath.bytes_unique hcut.path, List.append_assoc]

end Scanner

end Listfile
