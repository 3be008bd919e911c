import Listfile.Proofs.Scanner.Bracket
import Listfile.Proofs.Scanner.Quoted
import Listfile.Proofs.Scanner.Word
import Listfile.Segment.Tokens

/-!
# Which segment comes first

`Segment.first?` is the first segment of an input, if the input is not empty. For each sort of segment
there is one law that says from which bytes it arises: the bytes of the segment itself, and a
condition on the rest where the segment could go on. These laws are what the scanner is compared
with.

An input that starts with its first segment is cut there, and the rest is cut on its own
(`segments_append`).
-/

namespace Listfile

/-! ## Byte classes -/

/-- Bare bytes are none of the bytes that start another segment. -/
theorem Byte.ne_of_isBare {b c : UInt8} (h : Byte.isBare b = true) (hc : Byte.isBare c = false) :
    b ≠ c := by
  rintro rfl
  rw [h] at hc
  cases hc

/-- A bare byte is no blank. -/
theorem Byte.isBlank_eq_false_of_isBare {b : UInt8} (h : Byte.isBare b = true) :
    Byte.isBlank b = false := by
  have hspace : b ≠ Byte.space := Byte.ne_of_isBare h (by decide)
  have htab : b ≠ Byte.tab := Byte.ne_of_isBare h (by decide)
  rw [Byte.isBlank, beq_eq_false_iff_ne.2 hspace, beq_eq_false_iff_ne.2 htab]
  rfl

namespace Segment

/-- The first segment of an input. -/
def first? : List UInt8 → Option Segment
  | [] => none
  | b :: rest => some (first b rest)

/-! ## One law for each sort -/

/-- A run of blanks is the first segment if no further blank follows. -/
theorem first?_blank {run rest : List UInt8} (hne : run ≠ [])
    (hall : ∀ b ∈ run, Byte.isBlank b = true)
    (hstop : ∀ b, rest.head? = some b → Byte.isBlank b = false) :
    first? (run ++ rest) = some (blank run) := by
  have hrun := takeWhile_append_of_stop hall hstop
  obtain ⟨b, more, rfl⟩ := List.exists_cons_of_ne_nil hne
  rw [List.cons_append] at hrun ⊢
  rw [first?, first, if_pos (hall b List.mem_cons_self), hrun]

/-- A hash begins a bracket comment if an opener follows, and otherwise a line comment. -/
theorem first?_hash (rest : List UInt8) :
    first? (Byte.hash :: rest) =
      some (match openerLevel? rest with
        | some level => bracketOf true level (rest.drop (level + 2))
        | none => lineCommentOf rest) :=
  rfl

/-- A quote begins a quoted stretch. -/
theorem first?_quote (rest : List UInt8) :
    first? (Byte.quote :: rest) = some (quotedOf rest) :=
  rfl

/-- The bytes that begin neither blanks, comments and quotes nor a segment of one byte. -/
structure Ordinary (b : UInt8) : Prop where
  blank : Byte.isBlank b = false
  newline : b ≠ Byte.newline
  parenLeft : b ≠ Byte.parenLeft
  parenRight : b ≠ Byte.parenRight
  hash : b ≠ Byte.hash
  quote : b ≠ Byte.quote

/-- An ordinary byte begins a bracket where an opener stands. -/
theorem first?_ordinary_of_some {b : UInt8} {rest : List UInt8} {level : Nat} (h : Ordinary b)
    (hopener : openerLevel? (b :: rest) = some level) :
    first? (b :: rest) = some (bracketOf false level (rest.drop (level + 1))) := by
  have hblank : ¬ Byte.isBlank b = true := by
    rw [h.blank]
    exact Bool.false_ne_true
  rw [first?, first, if_neg hblank, if_neg h.newline, if_neg h.parenLeft, if_neg h.parenRight,
    if_neg h.hash, if_neg h.quote]
  simp only [hopener]

/-- Otherwise an ordinary byte begins a word or nothing. -/
theorem first?_ordinary_of_none {b : UInt8} {rest : List UInt8} (h : Ordinary b)
    (hopener : openerLevel? (b :: rest) = none) :
    first? (b :: rest) =
      some (if wordLength (b :: rest) = 0 then stray b else wordOf (b :: rest)) := by
  have hblank : ¬ Byte.isBlank b = true := by
    rw [h.blank]
    exact Bool.false_ne_true
  rw [first?, first, if_neg hblank, if_neg h.newline, if_neg h.parenLeft, if_neg h.parenRight,
    if_neg h.hash, if_neg h.quote]
  simp only [hopener]

/-- Bare bytes are ordinary. -/
theorem ordinary_of_isBare {b : UInt8} (h : Byte.isBare b = true) : Ordinary b where
  blank := Byte.isBlank_eq_false_of_isBare h
  newline := Byte.ne_of_isBare h (by decide)
  parenLeft := Byte.ne_of_isBare h (by decide)
  parenRight := Byte.ne_of_isBare h (by decide)
  hash := Byte.ne_of_isBare h (by decide)
  quote := Byte.ne_of_isBare h (by decide)

/-- A word begins with a bare byte or a backslash, and both are ordinary. -/
theorem ordinary_of_wordLength {b : UInt8} {rest : List UInt8} (h : wordLength (b :: rest) ≠ 0) :
    Ordinary b := by
  by_cases hback : b = Byte.backslash
  · rw [hback]
    constructor <;> decide
  · by_cases hbare : Byte.isBare b = true
    · exact ordinary_of_isBare hbare
    · refine absurd (wordLength_eq_zero ?_ ?_) h
      · intro c hc
        cases hc
        exact Bool.eq_false_iff.2 hbare
      · intro hc
        cases hc
        exact absurd rfl hback

/-- Bytes are a word at the front if the word there is as long as they are and no opener stands
there. -/
theorem first?_word {bytes rest : List UInt8} (hne : bytes ≠ [])
    (hlength : wordLength (bytes ++ rest) = bytes.length)
    (hopener : openerLevel? (bytes ++ rest) = none) :
    first? (bytes ++ rest) = some (word bytes) := by
  have hpos : wordLength (bytes ++ rest) ≠ 0 := by
    rw [hlength]
    exact fun hzero => hne (List.eq_nil_of_length_eq_zero hzero)
  have htake : (bytes ++ rest).take (wordLength (bytes ++ rest)) = bytes := by
    rw [hlength]
    exact List.take_left
  obtain ⟨b, more, rfl⟩ := List.exists_cons_of_ne_nil hne
  rw [List.cons_append] at hpos htake hopener ⊢
  rw [first?_ordinary_of_none (ordinary_of_wordLength hpos) hopener, if_neg hpos, wordOf, htake]

/-- No opener begins with another byte than an opening bracket. -/
theorem openerLevel?_of_ne {b : UInt8} (h : b ≠ Byte.bracketLeft) (rest : List UInt8) :
    openerLevel? (b :: rest) = none := by
  rw [openerLevel?, if_neg fun hopener => h hopener.1]

/-- An ordinary byte that begins no word and is no opening bracket is a segment of its own. -/
theorem first?_stray {b : UInt8} {rest : List UInt8} (h : Ordinary b)
    (hbracket : b ≠ Byte.bracketLeft) (hlength : wordLength (b :: rest) = 0) :
    first? (b :: rest) = some (stray b) := by
  rw [first?_ordinary_of_none h (openerLevel?_of_ne hbracket rest), if_pos hlength]

/-- A quoted stretch ends at the closing quote, or with the input. -/
theorem quotedOf_append {body rest : List UInt8} {closed : Bool}
    (h : quotedLength? (body ++ (Scanner.closingQuote closed ++ rest)) =
      if closed then some body.length else none) (hend : closed = false → rest = []) :
    quotedOf (body ++ (Scanner.closingQuote closed ++ rest)) = quoted body closed := by
  rw [quotedOf, h]
  cases closed with
  | false => simp [hend rfl, Scanner.closingQuote]
  | true => simp

/-- A bracket ends at the first closer, or with the input. -/
theorem bracketOf_append {comment : Bool} {level : Nat} {body rest : List UInt8} {closed : Bool}
    (h : indexOf? (closer level) (body ++ (Scanner.closingBracket level closed ++ rest)) =
      if closed then some body.length else none) (hend : closed = false → rest = []) :
    bracketOf comment level (body ++ (Scanner.closingBracket level closed ++ rest)) =
      bracket comment level body closed := by
  rw [bracketOf, h]
  cases closed with
  | false => simp [hend rfl, Scanner.closingBracket]
  | true => simp

/-- An opener begins a bracket, and a bracket comment if a hash stands before it. -/
theorem first?_opener (comment : Bool) (level : Nat) (rest : List UInt8) :
    first? ((if comment then [Byte.hash] else []) ++ (opener level ++ rest)) =
      some (bracketOf comment level rest) := by
  have hopener := openerLevel?_opener_append level rest
  have hdrop : (opener level ++ rest).drop (level + 2) = rest := by
    have hlength : (opener level).length = level + 2 := by simp [opener]
    rw [← hlength]
    exact List.drop_left
  cases comment with
  | true =>
    show first? (Byte.hash :: (opener level ++ rest)) = _
    rw [first?_hash, hopener]
    simp only [hdrop]
  | false =>
    have hordinary : Ordinary Byte.bracketLeft := ordinary_of_isBare (by decide)
    rw [opener, List.cons_append] at hopener hdrop
    rw [List.drop_succ_cons] at hdrop
    show first? (opener level ++ rest) = _
    rw [opener, List.cons_append, first?_ordinary_of_some hordinary hopener, hdrop]

/-- A line comment ends with the first newline, or with the input. -/
theorem lineCommentOf_append {body rest : List UInt8} {ended : Bool}
    (hbody : ∀ b ∈ body, b ≠ Byte.newline) (hend : ended = false → rest = []) :
    lineCommentOf (body ++ ((if ended then [Byte.newline] else []) ++ rest)) =
      lineComment body ended := by
  have hline : (body ++ ((if ended then [Byte.newline] else []) ++ rest)).takeWhile
      (· != Byte.newline) = body := by
    apply takeWhile_append_of_stop (fun b hb => bne_iff_ne.2 (hbody b hb))
    intro b hb
    cases ended with
    | false =>
      rw [hend rfl] at hb
      cases hb
    | true =>
      cases hb
      rfl
  rw [lineCommentOf, hline]
  cases ended with
  | false => simp [hend rfl]
  | true => simp

/-! ## Cutting an input -/

/-- A quoted stretch has bytes. -/
theorem spelling_quotedOf_ne_nil (rest : List UInt8) : (quotedOf rest).spelling ≠ [] := by
  unfold quotedOf
  split <;> exact List.cons_ne_nil _ _

/-- A bracket has bytes. -/
theorem spelling_bracketOf_ne_nil (comment : Bool) (level : Nat) (rest : List UInt8) :
    (bracketOf comment level rest).spelling ≠ [] := by
  unfold bracketOf
  split <;> simp [spelling, opener]

/-- The ways in which a byte and the bytes after it begin with a segment. -/
inductive Starts (b : UInt8) (tail : List UInt8) : Segment → Prop where
  | blank (h : Byte.isBlank b = true) : Starts b tail (blank ((b :: tail).takeWhile Byte.isBlank))
  | newline (h : b = Byte.newline) : Starts b tail newline
  | parenLeft (h : b = Byte.parenLeft) : Starts b tail parenLeft
  | parenRight (h : b = Byte.parenRight) : Starts b tail parenRight
  | bracketComment {level : Nat} (h : b = Byte.hash) (opener : openerLevel? tail = some level) :
      Starts b tail (bracketOf true level (tail.drop (level + 2)))
  | lineComment (h : b = Byte.hash) (opener : openerLevel? tail = none) :
      Starts b tail (lineCommentOf tail)
  | quoted (h : b = Byte.quote) : Starts b tail (quotedOf tail)
  | bracket {level : Nat} (opener : openerLevel? (b :: tail) = some level) :
      Starts b tail (bracketOf false level (tail.drop (level + 1)))
  | stray (h : Ordinary b) (length : wordLength (b :: tail) = 0) : Starts b tail (stray b)
  | word (opener : openerLevel? (b :: tail) = none) (length : wordLength (b :: tail) ≠ 0) :
      Starts b tail (wordOf (b :: tail))

/-- A segment that comes first starts in one of these ways. -/
theorem starts_of_first? {b : UInt8} {tail : List UInt8} {seg : Segment}
    (h : first? (b :: tail) = some seg) : Starts b tail seg := by
  obtain rfl : first b tail = seg := Option.some.inj h
  unfold first
  split
  · rename_i hblank
    exact .blank hblank
  rename_i hblank
  split
  · rename_i hnewline
    exact .newline hnewline
  rename_i hnewline
  split
  · rename_i hleft
    exact .parenLeft hleft
  rename_i hleft
  split
  · rename_i hright
    exact .parenRight hright
  rename_i hright
  split
  · rename_i hhash
    split
    · rename_i hopener
      exact .bracketComment hhash hopener
    · rename_i hopener
      exact .lineComment hhash hopener
  rename_i hhash
  split
  · rename_i hquote
    exact .quoted hquote
  rename_i hquote
  split
  · rename_i hopener
    exact .bracket hopener
  · rename_i hopener
    split
    · rename_i hlength
      exact .stray ⟨Bool.eq_false_iff.2 hblank, hnewline, hleft, hright, hhash, hquote⟩ hlength
    · rename_i hlength
      exact .word hopener hlength

/-- A segment that comes first has bytes. -/
theorem spelling_ne_nil_of_first? {input : List UInt8} {seg : Segment}
    (h : first? input = some seg) : seg.spelling ≠ [] := by
  cases input with
  | nil => cases h
  | cons b tail =>
    cases starts_of_first? h with
    | blank hblank =>
      rw [List.takeWhile_cons, if_pos hblank]
      exact List.cons_ne_nil _ _
    | newline => exact List.cons_ne_nil _ _
    | parenLeft => exact List.cons_ne_nil _ _
    | parenRight => exact List.cons_ne_nil _ _
    | bracketComment => exact spelling_bracketOf_ne_nil _ _ _
    | lineComment => exact List.cons_ne_nil _ _
    | quoted => exact spelling_quotedOf_ne_nil _
    | bracket => exact spelling_bracketOf_ne_nil _ _ _
    | stray => exact List.cons_ne_nil _ _
    | word _ hlength => exact fun hnil => hlength (by simpa [wordOf, spelling] using hnil)

end Segment

/-- An input that starts with its first segment is cut there. -/
theorem segments_append {seg : Segment} {rest : List UInt8}
    (h : Segment.first? (seg.spelling ++ rest) = some seg) :
    segments (seg.spelling ++ rest) = seg :: segments rest := by
  have hne := Segment.spelling_ne_nil_of_first? h
  obtain ⟨b, more, hspelling⟩ := List.exists_cons_of_ne_nil hne
  rw [hspelling, List.cons_append] at h ⊢
  have hfirst : Segment.first b (more ++ rest) = seg := Option.some.inj h
  rw [segments, hfirst, hspelling, List.length_cons, Nat.add_sub_cancel]
  simp only [List.drop_left]

/-! ## Tokens of segments -/

/-- A word is an identifier or an unquoted argument. -/
theorem Kind.ofWord_cases (depth : Nat) (word : List UInt8) :
    Kind.ofWord depth word = .identifier ∨ Kind.ofWord depth word = .unquoted := by
  rw [Kind.ofWord]
  split
  · exact .inl rfl
  · exact .inr rfl

/-- A word is no blank run. -/
theorem Kind.ofWord_ne_space (depth : Nat) (word : List UInt8) :
    Kind.ofWord depth word ≠ .space := by
  rcases Kind.ofWord_cases depth word with hkind | hkind <;> rw [hkind] <;> decide

/-- The token of a segment takes its kind and its text from the segment and its position from the
context, and it is a blank run only if these are tokens. -/
theorem Context.eq_of_token? {c : Context} {emitSpace : Bool} {seg : Segment} {t : Token}
    (h : c.token? emitSpace seg = some t) :
    seg.kind? c.depth = some t.kind ∧ t.text = seg.text ∧ t.position = c.position ∧
      (t.kind = .space → emitSpace = true) := by
  simp only [token?] at h
  split at h
  · rename_i k hkind
    split at h
    · cases h
    · rename_i hemit
      cases h
      refine ⟨hkind, rfl, rfl, ?_⟩
      rintro rfl
      simpa using hemit
  · cases h

/-- The token of a segment that is no blank run. -/
theorem Context.token?_of_ne_space {c : Context} {emitSpace : Bool} {seg : Segment} {kind : Kind}
    (hkind : seg.kind? c.depth = some kind) (hspace : kind ≠ .space) :
    c.token? emitSpace seg = some ⟨kind, seg.text, c.position⟩ := by
  simp only [token?, hkind, hspace, decide_false, Bool.false_and, Bool.false_eq_true, if_false]

end Listfile
