import Listfile.Proofs.Delimited
import Listfile.Proofs.Words

/-!
# The text of a token, lexed again

The text of a token is not how the token is written: delimiters and line continuations are left out,
and the bytes around it are gone. Still it can be written back. A word alone, and any other text
between its delimiters, is lexed to the same text again, as the one token of the input
(`tokenize_relexes`).

Three things could go wrong, and each has a lemma.

* A word cut off at its end could begin with an opener. But then so would the input from which it is
  cut (`Segment.first?_of_word`).
* Leaving out line continuations could bring a backslash before another byte, and so make a new
  continuation, or hide or show a closing quote. But continuations are whole pairs, and the other
  pairs stay whole (`withoutContinuations_idem`, `quotedLength?_text`, `quotedLength?_text_eq_none`).
* A closer put behind the text of a bracket could begin earlier, with bytes of the text. But then the
  bracket would have ended there (`indexOf?_closer_text`).
-/

namespace Listfile

/-! ## One token -/

/-- An input that is the spelling of its first segment has the token of this segment alone. -/
theorem tokenize_spelling (seg : Segment) {kind : Kind}
    (h : Segment.first? seg.spelling = some seg) (hkind : seg.kind? 0 = some kind)
    (hspace : kind ≠ .space) : tokenize seg.spelling = [⟨kind, seg.text, Position.start⟩] := by
  have hsegments : segments seg.spelling = [seg] := by
    have hsegs := @segments_append seg []
    rw [List.append_nil, segments] at hsegs
    exact hsegs h
  have htoken : Context.start.token? Settings.default.emitSpace seg =
      some ⟨kind, seg.text, Position.start⟩ := Context.token?_of_ne_space hkind hspace
  rw [tokenize, hsegments, tokensOf, htoken]
  rfl

/-! ## Words -/

/-- All of a word is found to be a word. -/
theorem IsWord.wordLength_eq {word : List UInt8} (h : IsWord word) :
    wordLength word = word.length := by
  induction h with
  | nil => rfl
  | bare hbare _ ih =>
    rw [wordLength_cons_of_isBare (Byte.isBare_iff.2 hbare), ih]
    rfl
  | pair hc _ ih =>
    rw [wordLength_pair hc, ih]
    rfl

/-- Where a word begins, no opener stands. -/
theorem BeginsWord.not_opener {input : List UInt8} (h : BeginsWord input) (level : Nat) :
    ¬ opener level <+: input := by
  cases h with
  | bare _ hopener => exact hopener level
  | pair _ =>
    rw [opener, List.cons_prefix_cons]
    intro hback
    exact absurd hback.1 (by decide)

/-- A word that comes first in some input comes first on its own. -/
theorem Segment.first?_of_word {input bytes : List UInt8} (h : first? input = some (word bytes)) :
    first? bytes = some (word bytes) := by
  have hne : bytes ≠ [] := spelling_ne_nil_of_first? h
  have hbegins := (begins_of_first? h).1 bytes rfl
  rw [first?_of_beginsWord hbegins, wordOf, Option.some_inj, word.injEq] at h
  have hlength : wordLength bytes = bytes.length := by
    rw [← h]
    exact (isWord_take_wordLength input).wordLength_eq
  have hopener : openerLevel? bytes = none := by
    rw [openerLevel?_eq_none_iff]
    intro level hlevel
    rw [← h] at hlevel
    exact hbegins.not_opener level (hlevel.trans (List.take_prefix _ _))
  have hfirst := @first?_word bytes []
  rw [List.append_nil] at hfirst
  exact hfirst hne hlength hopener

/-- A word is its token alone, and it names a command if it can. -/
theorem tokenize_word {input bytes : List UInt8}
    (h : Segment.first? input = some (.word bytes)) :
    tokenize bytes = [⟨.ofWord 0 bytes, bytes, Position.start⟩] :=
  tokenize_spelling (.word bytes) (Segment.first?_of_word h) rfl (Kind.ofWord_ne_space 0 bytes)

/-! ## Quotes -/

/-- A byte other than a backslash is kept. -/
theorem withoutContinuations_cons {b : UInt8} (h : b ≠ Byte.backslash) (rest : List UInt8) :
    withoutContinuations (b :: rest) = b :: withoutContinuations rest := by
  rw [withoutContinuations.eq_def]
  simp only [if_neg h]

/-- A byte other than a quote and a backslash puts the closing quote further off by one. -/
theorem quotedLength?_cons {b : UInt8} (hquote : b ≠ Byte.quote) (hback : b ≠ Byte.backslash)
    (rest : List UInt8) : quotedLength? (b :: rest) = (quotedLength? rest).map (· + 1) := by
  rw [quotedLength?.eq_def]
  simp only [if_neg hquote, if_neg hback]

/-- Leaving out line continuations makes no new ones. -/
theorem withoutContinuations_idem (bytes : List UInt8) :
    withoutContinuations (withoutContinuations bytes) = withoutContinuations bytes := by
  fun_induction withoutContinuations bytes with
  | case1 => rfl
  | case2 => rfl
  | case3 rest ih => exact ih
  | case4 c rest hc ih =>
    rw [withoutContinuations_pair, if_neg hc, ih]
    rfl
  | case5 b rest hb ih => rw [withoutContinuations_cons hb, ih]

/-- A quote put behind the text up to the closing quote is the first that closes. -/
theorem quotedLength?_text {w : List UInt8} {n : Nat} (h : quotedLength? w = some n)
    (rest : List UInt8) :
    quotedLength? (withoutContinuations (w.take n) ++ Byte.quote :: rest) =
      some (withoutContinuations (w.take n)).length := by
  fun_induction quotedLength? w generalizing n with
  | case1 => cases h
  | case2 =>
    cases h
    exact quotedLength?_quote rest
  | case3 => cases h
  | case4 _ c later ih =>
    obtain ⟨m, hm, rfl⟩ := Option.map_eq_some_iff.1 h
    rw [List.take_succ_cons, List.take_succ_cons, withoutContinuations_pair]
    -- The pair is gone, or it still keeps the byte after the backslash from closing.
    split
    · exact ih hm
    · rw [List.append_assoc, List.cons_append, List.cons_append, List.nil_append,
        quotedLength?_pair, ih hm]
      rfl
  | case5 b later hquote hback ih =>
    obtain ⟨m, hm, rfl⟩ := Option.map_eq_some_iff.1 h
    rw [List.take_succ_cons, withoutContinuations_cons hback, List.cons_append,
      quotedLength?_cons hquote hback, ih hm]
    rfl

/-- The text of what is not closed has no closing quote. -/
theorem quotedLength?_text_eq_none {w : List UInt8} (h : quotedLength? w = none) :
    quotedLength? (withoutContinuations w) = none := by
  fun_induction quotedLength? w with
  | case1 => rfl
  | case2 => cases h
  | case3 => rfl
  | case4 _ c later ih =>
    have hlater := ih (Option.map_eq_none_iff.1 h)
    rw [withoutContinuations_pair]
    split
    · exact hlater
    · rw [List.cons_append, List.cons_append, List.nil_append, quotedLength?_pair, hlater]
      rfl
  | case5 b later hquote hback ih =>
    rw [withoutContinuations_cons hback, quotedLength?_cons hquote hback,
      ih (Option.map_eq_none_iff.1 h)]
    rfl

/-- The text of a quoted stretch, put between quotes again or left open, is its token alone. -/
theorem tokenize_quoted {w body : List UInt8} {closed : Bool}
    (h : Segment.quotedOf w = .quoted body closed) :
    tokenize (Byte.quote :: (withoutContinuations body ++ Scanner.closingQuote closed)) =
      [⟨if closed then .quoted else .badString, withoutContinuations body, Position.start⟩] := by
  have hlength : quotedLength? (withoutContinuations body ++ (Scanner.closingQuote closed ++ [])) =
      if closed then some (withoutContinuations body).length else none := by
    rw [Segment.quotedOf] at h
    split at h
    · rename_i n hn
      cases h
      exact quotedLength?_text hn []
    · rename_i hnone
      cases h
      rw [Scanner.closingQuote_false, List.append_nil, List.append_nil]
      exact quotedLength?_text_eq_none hnone
  have hquoted := Segment.quotedOf_append hlength fun _ => rfl
  rw [List.append_nil] at hquoted
  have hfirst := Segment.first?_quote (withoutContinuations body ++ Scanner.closingQuote closed)
  rw [hquoted] at hfirst
  have htoken := tokenize_spelling (.quoted (withoutContinuations body) closed) hfirst rfl
    (by cases closed <;> decide)
  rw [Segment.text, withoutContinuations_idem] at htoken
  exact htoken

/-! ## Brackets -/

/-- A closer put behind the text up to the first closer is the first one. -/
theorem indexOf?_closer_text {level : Nat} {w : List UInt8} {n : Nat}
    (h : indexOf? (closer level) w = some n) :
    indexOf? (closer level) (w.take n ++ closer level) = some (w.take n).length := by
  induction w generalizing n with
  | nil => simp [indexOf?, closer] at h
  | cons b w ih =>
    rw [indexOf?] at h
    split at h
    · cases h
      have hself := indexOf?_closer_self level []
      rwa [List.append_nil] at hself
    · rename_i hnot
      obtain ⟨m, hm, rfl⟩ := Option.map_eq_some_iff.1 h
      -- A closer that begins with this byte would have been found in the whole.
      have hlater : ¬ (closer level).isPrefixOf (b :: (w.take m ++ closer level)) = true := by
        rw [List.isPrefixOf_iff_prefix] at hnot ⊢
        intro hcloser
        obtain ⟨body, after, hbody, hoccurs⟩ := firstOccurrence_of_indexOf? hm
        refine hnot (hcloser.trans ?_)
        rw [List.cons_prefix_cons, hbody, hoccurs.split, ← List.append_assoc]
        exact ⟨rfl, List.prefix_append _ _⟩
      rw [List.take_succ_cons, List.cons_append, indexOf?, if_neg hlater, ih hm]
      rfl

/-- The text of a bracket, put between its delimiters again or left open, is its token alone, as an
argument and as a comment. -/
theorem tokenize_bracket {comment : Bool} {level : Nat} {w body : List UInt8} {closed : Bool}
    (h : Segment.bracketOf comment level w = .bracket comment level body closed) (comment' : Bool) :
    tokenize ((if comment' then [Byte.hash] else []) ++ (opener level ++
        (body ++ Scanner.closingBracket level closed))) =
      [⟨if closed then if comment' then .bracketComment else .bracket else .badBracket, body,
        Position.start⟩] := by
  have hindex : indexOf? (closer level) (body ++ (Scanner.closingBracket level closed ++ [])) =
      if closed then some body.length else none := by
    rw [Segment.bracketOf] at h
    split at h
    · rename_i n hn
      cases h
      rw [List.append_nil]
      exact indexOf?_closer_text hn
    · rename_i hnone
      cases h
      rw [Scanner.closingBracket_false, List.append_nil, List.append_nil]
      exact hnone
  have hbracket : Segment.bracketOf comment' level
      (body ++ (Scanner.closingBracket level closed ++ [])) = .bracket comment' level body closed :=
    Segment.bracketOf_append hindex fun _ => rfl
  rw [List.append_nil] at hbracket
  have hfirst := Segment.first?_opener comment' level (body ++ Scanner.closingBracket level closed)
  rw [hbracket] at hfirst
  have hspelling : (Segment.bracket comment' level body closed).spelling =
      (if comment' then [Byte.hash] else []) ++ (opener level ++
        (body ++ Scanner.closingBracket level closed)) := by
    simp only [Segment.spelling, Scanner.closingBracket, List.append_assoc]
  rw [← hspelling] at hfirst ⊢
  exact tokenize_spelling _ hfirst rfl (by cases closed <;> cases comment' <;> decide)

/-! ## Where the text comes from -/

/-- The input is the opener that is found, and what comes behind it. -/
theorem opener_append_drop {input : List UInt8} {level : Nat} (h : openerLevel? input = some level) :
    opener level ++ input.drop (level + 2) = input := by
  have hlength : (opener level).length = level + 2 := by simp [opener]
  rw [← hlength]
  exact List.prefix_iff_eq_append.1 (openerLevel?_eq_some_iff.1 h)

namespace Segment

/-- A quoted stretch comes first only behind a quote. -/
theorem quotedOf_of_first? {input body : List UInt8} {closed : Bool}
    (h : first? input = some (quoted body closed)) : ∃ w, quotedOf w = quoted body closed := by
  generalize hseg : quoted body closed = seg at h ⊢
  cases input with
  | nil => cases h
  | cons b tail =>
    cases starts_of_first? h with
    | quoted _ => exact ⟨tail, rfl⟩
    | bracketComment =>
      obtain ⟨body, closed, hbracket⟩ := exists_bracketOf true _ _
      rw [hbracket] at hseg
      cases hseg
    | bracket =>
      obtain ⟨body, closed, hbracket⟩ := exists_bracketOf false _ _
      rw [hbracket] at hseg
      cases hseg
    | _ => cases hseg

/-- A bracket comes first only behind its opener, with a hash before that if it is a comment. -/
theorem bracketOf_of_first? {input body : List UInt8} {comment : Bool} {level : Nat} {closed : Bool}
    (h : first? input = some (bracket comment level body closed)) :
    ∃ w, input = (if comment then [Byte.hash] else []) ++ (opener level ++ w) ∧
      bracketOf comment level w = bracket comment level body closed := by
  generalize hseg : bracket comment level body closed = seg at h ⊢
  cases input with
  | nil => cases h
  | cons b tail =>
    cases starts_of_first? h with
    | @bracketComment level' hhash hopener =>
      obtain ⟨body', closed', hbracket⟩ := exists_bracketOf true level' (tail.drop (level' + 2))
      rw [hbracket] at hseg
      cases hseg
      refine ⟨tail.drop (level + 2), ?_, rfl⟩
      rw [hhash, opener_append_drop hopener]
      rfl
    | @bracket level' hopener =>
      obtain ⟨body', closed', hbracket⟩ := exists_bracketOf false level' (tail.drop (level' + 1))
      rw [hbracket] at hseg
      cases hseg
      exact ⟨tail.drop (level + 1), (opener_append_drop hopener).symm, rfl⟩
    | quoted =>
      obtain ⟨body, closed, hquoted⟩ := exists_quotedOf tail
      rw [hquoted] at hseg
      cases hseg
    | _ => cases hseg

end Segment

/-- The input begins with an opener of the given level, perhaps behind a hash. -/
def OpenedWith (level : Nat) (input : List UInt8) : Prop :=
  opener level <+: input ∨ Byte.hash :: opener level <+: input

/-- There is one level at most. -/
theorem openedWith_iff (comment : Bool) (level : Nat) (w : List UInt8) {n : Nat} :
    OpenedWith n ((if comment then [Byte.hash] else []) ++ (opener level ++ w)) ↔ n = level := by
  have hopener : opener n <+: opener level ++ w ↔ n = level := by
    rw [← openerLevel?_eq_some_iff, openerLevel?_opener_append, Option.some_inj, eq_comm]
  cases comment with
  | false =>
    have hhash : ¬ Byte.hash :: opener n <+: opener level ++ w := by
      rw [opener, opener, List.cons_append, List.cons_prefix_cons]
      exact fun hsame => absurd hsame.1 (by decide)
    exact (or_iff_left hhash).trans hopener
  | true =>
    have hbracket : ¬ opener n <+: Byte.hash :: (opener level ++ w) := by
      rw [opener, List.cons_prefix_cons]
      exact fun hsame => absurd hsame.1 (by decide)
    have hcons : Byte.hash :: opener n <+: Byte.hash :: (opener level ++ w) ↔
        opener n <+: opener level ++ w := by
      rw [List.cons_prefix_cons]
      exact and_iff_right rfl
    exact (or_iff_right hbracket).trans (hcons.trans hopener)

/-- The text of the token `t`, whose first byte is that of `ahead`, is lexed again to the one token
that it should be. -/
def Token.Relexes (t : Token) (ahead : List UInt8) : Prop :=
  match t.kind with
  | .identifier | .unquoted => ∃ kind, tokenize t.text = [⟨kind, t.text, Position.start⟩] ∧
      (kind = .identifier ∨ kind = .unquoted) ∧ (kind = .identifier ↔ IsIdentifier t.text)
  | .quoted => tokenize (Byte.quote :: (t.text ++ [Byte.quote])) =
      [⟨.quoted, t.text, Position.start⟩]
  | .badString => tokenize (Byte.quote :: t.text) = [⟨.badString, t.text, Position.start⟩]
  | .bracket | .bracketComment => ∃ level, (∀ n, OpenedWith n ahead ↔ n = level) ∧
      tokenize (opener level ++ (t.text ++ closer level)) = [⟨.bracket, t.text, Position.start⟩] ∧
      tokenize (Byte.hash :: (opener level ++ (t.text ++ closer level))) =
        [⟨.bracketComment, t.text, Position.start⟩]
  | .badBracket => ∃ level, (∀ n, OpenedWith n ahead ↔ n = level) ∧
      tokenize (opener level ++ t.text) = [⟨.badBracket, t.text, Position.start⟩]
  | .nothing | .space | .newline | .parenLeft | .parenRight | .badCharacter => True

/-- The text of a token is lexed again as it should be. -/
theorem Token.ComesFrom.relexes {t : Token} {depth : Nat} {ahead : List UInt8}
    (h : t.ComesFrom depth ahead) : t.Relexes ahead := by
  rw [ComesFrom] at h
  cases hfirst : Segment.first? ahead with
  | none =>
    simp only [hfirst] at h
    rw [Relexes, h]
    trivial
  | some seg =>
    simp only [hfirst] at h
    obtain ⟨hkind, htext⟩ := h
    cases seg with
    | word bytes =>
      have hword : ∃ kind, tokenize t.text = [⟨kind, t.text, Position.start⟩] ∧
          (kind = .identifier ∨ kind = .unquoted) ∧ (kind = .identifier ↔ IsIdentifier t.text) := by
        rw [htext]
        refine ⟨_, tokenize_word hfirst, Kind.ofWord_cases 0 bytes, ?_⟩
        exact Kind.ofWord_eq_identifier_iff.trans (and_iff_left rfl)
      rw [Relexes, ← Option.some.inj hkind]
      rcases Kind.ofWord_cases depth bytes with hkind | hkind <;> rw [hkind] <;> exact hword
    | quoted body closed =>
      obtain ⟨w, hw⟩ := Segment.quotedOf_of_first? hfirst
      have hquoted := tokenize_quoted hw
      rw [Relexes, ← Option.some.inj hkind, htext]
      cases closed with
      | false =>
        rw [Scanner.closingQuote_false, List.append_nil] at hquoted
        exact hquoted
      | true => exact hquoted
    | bracket comment level body closed =>
      obtain ⟨w, hahead, hw⟩ := Segment.bracketOf_of_first? hfirst
      have hopened : ∀ n, OpenedWith n ahead ↔ n = level := by
        intro n
        rw [hahead]
        exact openedWith_iff comment level w
      have hargument := tokenize_bracket hw false
      rw [Relexes, ← Option.some.inj hkind, htext]
      cases closed with
      | false =>
        rw [Scanner.closingBracket_false, List.append_nil] at hargument
        exact ⟨level, hopened, hargument⟩
      | true =>
        cases comment <;> exact ⟨level, hopened, hargument, tokenize_bracket hw true⟩
    | lineComment body ended => cases hkind
    | _ =>
      rw [Relexes, ← Option.some.inj hkind]
      trivial

namespace Scanner

/-! ## Every token -/

/-- The tokens of a scanner are those that its calls give. -/
theorem token_after_of_tokens {σ : Type} [Source σ] {s : Scanner σ} {d : Draft} {k : Nat} {t : Token}
    (h : (s.tokens d)[k]? = some t) : (after (k + 1) s d).2.token = t := by
  induction k generalizing s d with
  | zero =>
    by_cases hkind : (next s d).2.kind = .nothing
    · rw [tokens_of_nothing hkind] at h
      cases h
    · rw [tokens_of_ne_nothing hkind] at h
      exact Option.some.inj h
  | succ k ih =>
    by_cases hkind : (next s d).2.kind = .nothing
    · rw [tokens_of_nothing hkind] at h
      cases h
    · rw [tokens_of_ne_nothing hkind, List.getElem?_cons_succ] at h
      exact ih h

/-- Texts are lexed to themselves: whatever the input and whichever of its tokens, the text of this
token alone, or between its delimiters again, is lexed to one token with the same text. -/
theorem tokenize_relexes {b : List UInt8} {k : Nat} {t : Token} (h : (tokenize b)[k]? = some t) :
    ∃ start,
      StartsAt Settings.default.emitSpace b
        (after k (ofSource Settings.default (⟨b⟩ : Memory)) Draft.empty)
        (after (k + 1) (ofSource Settings.default (⟨b⟩ : Memory)) Draft.empty) start ∧
      (after (k + 1) (ofSource Settings.default (⟨b⟩ : Memory)) Draft.empty).2.token = t ∧
      t.Relexes (b.drop start) := by
  have hholds := (Memory.delivers ⟨b⟩).holds Settings.default Draft.empty
  have htoken :
      (after (k + 1) (ofSource Settings.default (⟨b⟩ : Memory)) Draft.empty).2.token = t := by
    apply token_after_of_tokens
    rw [hholds.tokens_eq]
    exact h
  obtain ⟨done, input, hb, hpath, hposition, hemit, hinput⟩ := hholds.after k
  obtain ⟨gap, lexeme, rest, rfl, hcut, -⟩ := hinput.cut
  rw [← after_succ] at hcut
  have hstarts := hcut.startsAt hb (hpath.taken.trans (Nat.zero_add _)) hposition
  rw [hemit] at hstarts
  refine ⟨(done ++ gap).length, hstarts, htoken, ?_⟩
  rw [← htoken, (offsets_of_append hb).2.1]
  exact hcut.comesFrom.relexes

/-- An escaped backslash before a line continuation: two backslashes are left, and the quote behind
them still closes. -/
theorem tokenize_relexes_continuation :
    (tokenize [Byte.quote, Byte.backslash, Byte.backslash, Byte.backslash, Byte.newline,
        Byte.quote])[0]? = some ⟨.quoted, [Byte.backslash, Byte.backslash], Position.start⟩ ∧
      tokenize [Byte.quote, Byte.backslash, Byte.backslash, Byte.quote] =
        [⟨.quoted, [Byte.backslash, Byte.backslash], Position.start⟩] := by
  have htoken : (tokenize [Byte.quote, Byte.backslash, Byte.backslash, Byte.backslash, Byte.newline,
      Byte.quote])[0]? = some ⟨.quoted, [Byte.backslash, Byte.backslash], Position.start⟩ := by
    decide +kernel
  obtain ⟨start, -, -, hrelexes⟩ := tokenize_relexes htoken
  exact ⟨htoken, hrelexes⟩

end Scanner

end Listfile
