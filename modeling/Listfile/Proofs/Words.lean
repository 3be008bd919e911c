import Listfile.Proofs.Chunking
import Listfile.Proofs.Positions
import Listfile.Proofs.Progress

/-!
# Bare words are maximal

A bare word is a row of bare bytes and of backslashes each with the byte after it (`IsWord`). It can
begin with a bare byte, with such a pair, or with the bytes of an opener that is not finished, and it
goes on as long as it can. The bytes of a word do not settle its kind: it names a command only where
no parenthesis is open, and this depends on all tokens before it (`openAfter`).

* The tests for classes of bytes are right (`Byte.isBare_iff`, `isIdentifier_iff`).
* The word at the front of an input is the longest start of it that is a word
  (`isLongestWord_wordLength`).
* A word is the first segment exactly where one begins (`BeginsWord`), and a stray byte exactly where
  nothing begins (`BeginsNothing`).
* The count of open parentheses in a scanner is that of the tokens which it has given
  (`after_depth`).

`words_exact` puts these together for every call of a run on whatever source. It rests on
`Scanner.Cut`: the token of a call is that of the segment which begins behind the bytes skipped.
-/

namespace Listfile

/-! ## Classes of bytes -/

namespace Byte

/-- The bytes that stand for themselves in a word: those of ASCII that can be printed, without the
blank and those with a role of their own, and all bytes outside ASCII. -/
def IsBare (b : UInt8) : Prop :=
  (0x21 ≤ b ∧ b ≤ 0x7E ∨ 0x80 ≤ b) ∧ b ∉ [parenLeft, parenRight, hash, quote, backslash]

/-- The letters of ASCII and the underscore. -/
def IsLetter (b : UInt8) : Prop :=
  0x41 ≤ b ∧ b ≤ 0x5A ∨ 0x61 ≤ b ∧ b ≤ 0x7A ∨ b = underscore

/-- The digits of ASCII. -/
def IsDigit (b : UInt8) : Prop :=
  0x30 ≤ b ∧ b ≤ 0x39

/-- The control bytes of ASCII. -/
def IsControl (b : UInt8) : Prop :=
  b < 0x20 ∨ b = 0x7F

instance (b : UInt8) : Decidable (IsControl b) :=
  inferInstanceAs (Decidable (_ ∨ _))

/-- The test for bare bytes is right. -/
theorem isBare_iff {b : UInt8} : isBare b = true ↔ IsBare b := by
  simp [isBare, isSpecial, IsBare, and_assoc]

/-- The test for the first byte of an identifier is right. -/
theorem isIdentifierStart_iff {b : UInt8} : isIdentifierStart b = true ↔ IsLetter b := by
  simp [isIdentifierStart, IsLetter, or_assoc]

/-- The test for the other bytes of an identifier is right. -/
theorem isIdentifierPart_iff {b : UInt8} : isIdentifierPart b = true ↔ IsLetter b ∨ IsDigit b := by
  simp [isIdentifierPart, isIdentifierStart_iff, IsDigit]

/-- A control byte is none of the other bytes. -/
theorem IsControl.ne {b c : UInt8} (h : IsControl b) (hc : ¬ IsControl c) : b ≠ c := by
  rintro rfl
  exact hc h

/-- A control byte is no bare byte. -/
theorem IsControl.isBare_eq_false {b : UInt8} (h : IsControl b) : isBare b = false := by
  rcases h with hlow | rfl
  · have hbelow : ¬ (0x21 : UInt8) ≤ b ∧ ¬ (0x80 : UInt8) ≤ b := by
      simp only [UInt8.le_iff_toNat_le, UInt8.lt_iff_toNat_lt, UInt8.reduceToNat] at hlow ⊢
      omega
    simp [isBare, hbelow.1, hbelow.2]
  · decide

end Byte

/-- A name of a command: a letter or underscore, and then letters, digits and underscores. -/
inductive IsIdentifier : List UInt8 → Prop where
  /-- The first byte and the others. -/
  | mk {b : UInt8} {bytes : List UInt8} (letter : Byte.IsLetter b)
      (others : ∀ c ∈ bytes, Byte.IsLetter c ∨ Byte.IsDigit c) : IsIdentifier (b :: bytes)

/-- The test for names is right. -/
theorem isIdentifier_iff {bytes : List UInt8} : isIdentifier bytes = true ↔ IsIdentifier bytes := by
  cases bytes with
  | nil => constructor <;> intro h <;> cases h
  | cons b bytes =>
    rw [isIdentifier, Bool.and_eq_true, List.all_eq_true, Byte.isIdentifierStart_iff]
    simp only [Byte.isIdentifierPart_iff]
    constructor
    · intro h
      exact .mk h.1 h.2
    · rintro ⟨hletter, hothers⟩
      exact ⟨hletter, hothers⟩

/-! ## Words -/

/-- The bytes are a row of bare bytes and of pairs, each of them a backslash with a byte after it that
is no newline. -/
inductive IsWord : List UInt8 → Prop where
  /-- The empty row. -/
  | nil : IsWord []
  /-- A bare byte in front. -/
  | bare {b : UInt8} {bytes : List UInt8} (isBare : Byte.IsBare b) (later : IsWord bytes) :
      IsWord (b :: bytes)
  /-- A pair in front. -/
  | pair {c : UInt8} {bytes : List UInt8} (ne_newline : c ≠ Byte.newline) (later : IsWord bytes) :
      IsWord (Byte.backslash :: c :: bytes)

/-- The longest start of the input that is a word. -/
structure IsLongestWord (text input : List UInt8) : Prop where
  /-- It is a start of the input. -/
  start : text <+: input
  /-- It is a word. -/
  isWord : IsWord text
  /-- No word at the start of the input is longer. -/
  longest : ∀ other, other <+: input → IsWord other → other.length ≤ text.length

/-- As many bytes as `wordLength` says are a word. -/
theorem isWord_take_wordLength (input : List UInt8) : IsWord (input.take (wordLength input)) := by
  fun_induction wordLength input with
  | case4 c rest hc ih =>
    rw [List.take_succ_cons, List.take_succ_cons]
    exact .pair hc ih
  | case5 b rest _ hbare ih =>
    rw [List.take_succ_cons]
    exact .bare (Byte.isBare_iff.1 hbare) ih
  | _ => exact .nil

/-- A word at the front is no longer than `wordLength` says, whatever comes after it. -/
theorem IsWord.length_le_wordLength {word : List UInt8} (h : IsWord word) (rest : List UInt8) :
    word.length ≤ wordLength (word ++ rest) := by
  induction h with
  | nil => exact Nat.zero_le _
  | bare hbare _ ih =>
    rw [List.cons_append, wordLength_cons_of_isBare (Byte.isBare_iff.2 hbare), List.length_cons]
    omega
  | pair hc _ ih =>
    rw [List.cons_append, List.cons_append, wordLength_pair hc, List.length_cons, List.length_cons]
    omega

/-- The word at the front of an input is its longest one. -/
theorem isLongestWord_wordLength (input : List UInt8) :
    IsLongestWord (input.take (wordLength input)) input := by
  refine ⟨List.take_prefix _ _, isWord_take_wordLength input, ?_⟩
  rintro other ⟨rest, rfl⟩ hword
  have hle := hword.length_le_wordLength rest
  rw [List.length_take, List.length_append]
  omega

/-! ## What begins where -/

/-- A word begins here: a bare byte that begins no opener comes next, or a backslash with a byte after
it that is no newline. -/
inductive BeginsWord : List UInt8 → Prop where
  /-- A bare byte, also one that begins an opener which is not finished. -/
  | bare {b : UInt8} {rest : List UInt8} (isBare : Byte.IsBare b)
      (no_opener : ∀ level, ¬ opener level <+: b :: rest) : BeginsWord (b :: rest)
  /-- A backslash and the byte that it escapes. -/
  | pair {c : UInt8} {rest : List UInt8} (ne_newline : c ≠ Byte.newline) :
      BeginsWord (Byte.backslash :: c :: rest)

/-- Nothing begins here: a control byte other than a tab and a newline comes next, or a backslash
before a newline or at the end of the input. -/
inductive BeginsNothing : List UInt8 → Prop where
  /-- A control byte. -/
  | control {b : UInt8} {rest : List UInt8} (isControl : Byte.IsControl b) (ne_tab : b ≠ Byte.tab)
      (ne_newline : b ≠ Byte.newline) : BeginsNothing (b :: rest)
  /-- A backslash with which the input ends. -/
  | backslashAtEnd : BeginsNothing [Byte.backslash]
  /-- A backslash before a newline. -/
  | backslashNewline {rest : List UInt8} : BeginsNothing (Byte.backslash :: Byte.newline :: rest)

/-- The level of an opener is found only where the opener stands. -/
theorem opener_prefix_of_openerLevel? {input : List UInt8} {level : Nat}
    (h : openerLevel? input = some level) : opener level <+: input := by
  cases input with
  | nil => cases h
  | cons b rest =>
    rw [openerLevel?] at h
    split at h
    · rename_i hopener
      obtain ⟨rfl, hbracket⟩ := hopener
      cases h
      have hsigns : rest.takeWhile (· == Byte.equals) =
          List.replicate (rest.takeWhile (· == Byte.equals)).length Byte.equals :=
        List.eq_replicate_iff.2
          ⟨rfl, fun b hb => eq_of_beq (List.all_eq_true.1 List.all_takeWhile b hb)⟩
      rw [opener, List.cons_prefix_cons, ← hsigns]
      refine ⟨rfl, ?_⟩
      -- Behind the equals signs the second bracket comes next.
      obtain ⟨more, hmore⟩ := List.takeWhile_prefix (l := rest) (· == Byte.equals)
      generalize rest.takeWhile (· == Byte.equals) = signs at hmore hbracket ⊢
      subst hmore
      rw [List.drop_left] at hbracket
      obtain ⟨later, rfl⟩ := List.head?_eq_some_iff.1 hbracket
      exact ⟨later, List.append_assoc _ _ _⟩
    · cases h

/-- A level is found exactly if its opener stands at the front. -/
theorem openerLevel?_eq_some_iff {input : List UInt8} {level : Nat} :
    openerLevel? input = some level ↔ opener level <+: input := by
  constructor
  · exact opener_prefix_of_openerLevel?
  · rintro ⟨rest, rfl⟩
    exact openerLevel?_opener_append level rest

/-- No level is found exactly if no opener stands at the front. -/
theorem openerLevel?_eq_none_iff {input : List UInt8} :
    openerLevel? input = none ↔ ∀ level, ¬ opener level <+: input := by
  rw [Option.eq_none_iff_forall_not_mem]
  simp only [Option.mem_def, openerLevel?_eq_some_iff]

/-- A control byte begins no word. -/
theorem wordLength_of_isControl {b : UInt8} (h : Byte.IsControl b) (rest : List UInt8) :
    wordLength (b :: rest) = 0 := by
  apply wordLength_eq_zero
  · intro c hc
    cases hc
    exact h.isBare_eq_false
  · intro hc
    cases hc
    exact absurd h (by decide)

namespace Segment

/-- An ordinary byte is a bare byte, a backslash or a control byte. -/
theorem Ordinary.cases {b : UInt8} (h : Ordinary b) :
    Byte.isBare b = true ∨ b = Byte.backslash ∨ Byte.IsControl b := by
  by_cases hback : b = Byte.backslash
  · exact .inr (.inl hback)
  have hspecial : Byte.isSpecial b = false := by
    simp [Byte.isSpecial, h.parenLeft, h.parenRight, h.hash, h.quote, hback]
  have hspace : b ≠ Byte.space := by
    rintro rfl
    exact absurd h.blank (by decide)
  simp only [Byte.isBare, hspecial, Byte.IsControl, Byte.space, Bool.not_false, Bool.and_true,
    Bool.or_eq_true, Bool.and_eq_true, decide_eq_true_eq, ne_eq, UInt8.le_iff_toNat_le,
    UInt8.lt_iff_toNat_lt, ← UInt8.toNat_inj, UInt8.reduceToNat] at hspace ⊢
  omega

/-- A control byte other than a tab and a newline is ordinary. -/
theorem ordinary_of_isControl {b : UInt8} (h : Byte.IsControl b) (htab : b ≠ Byte.tab)
    (hnewline : b ≠ Byte.newline) : Ordinary b where
  blank := by
    have hspace : b ≠ Byte.space := h.ne (by decide)
    simp [Byte.isBlank, hspace, htab]
  newline := hnewline
  parenLeft := h.ne (by decide)
  parenRight := h.ne (by decide)
  hash := h.ne (by decide)
  quote := h.ne (by decide)

/-- Where a word begins, the longest word is the first segment. -/
theorem first?_of_beginsWord {input : List UInt8} (h : BeginsWord input) :
    first? input = some (wordOf input) := by
  cases h with
  | @bare b rest hbare hopener =>
    rw [← Byte.isBare_iff] at hbare
    rw [← openerLevel?_eq_none_iff] at hopener
    rw [first?_ordinary_of_none (ordinary_of_isBare hbare) hopener, if_neg]
    rw [wordLength_cons_of_isBare hbare]
    exact Nat.succ_ne_zero _
  | @pair c rest hc =>
    have hlength : wordLength (Byte.backslash :: c :: rest) ≠ 0 := by
      rw [wordLength_pair hc]
      exact Nat.succ_ne_zero _
    rw [first?_ordinary_of_none (ordinary_of_wordLength hlength)
      (openerLevel?_of_ne (by decide) (c :: rest)), if_neg hlength]

/-- Where nothing begins, the next byte is the first segment. -/
theorem first?_of_beginsNothing {b : UInt8} {rest : List UInt8} (h : BeginsNothing (b :: rest)) :
    first? (b :: rest) = some (stray b) := by
  cases h with
  | control hcontrol htab hnewline =>
    exact first?_stray (ordinary_of_isControl hcontrol htab hnewline) (hcontrol.ne (by decide))
      (wordLength_of_isControl hcontrol rest)
  | backslashAtEnd => rfl
  | backslashNewline => rfl

/-- Where a word has been found, one begins. -/
theorem beginsWord_of_wordLength {b : UInt8} {rest : List UInt8}
    (hopener : openerLevel? (b :: rest) = none) (hlength : wordLength (b :: rest) ≠ 0) :
    BeginsWord (b :: rest) := by
  rcases (ordinary_of_wordLength hlength).cases with hbare | rfl | hcontrol
  · exact .bare (Byte.isBare_iff.1 hbare) (openerLevel?_eq_none_iff.1 hopener)
  · cases rest with
    | nil => exact absurd rfl hlength
    | cons c rest =>
      refine .pair ?_
      rintro rfl
      exact hlength rfl
  · exact absurd (wordLength_of_isControl hcontrol rest) hlength

/-- Where an ordinary byte begins no word, nothing begins, unless an opener does. -/
theorem beginsNothing_of_wordLength {b : UInt8} {rest : List UInt8} (h : Ordinary b)
    (hlength : wordLength (b :: rest) = 0) : BeginsNothing (b :: rest) := by
  rcases h.cases with hbare | rfl | hcontrol
  · rw [wordLength_cons_of_isBare hbare] at hlength
    cases hlength
  · cases rest with
    | nil => exact .backslashAtEnd
    | cons c rest =>
      by_cases hc : c = Byte.newline
      · rw [hc]
        exact .backslashNewline
      · rw [wordLength_pair hc] at hlength
        cases hlength
  · refine .control hcontrol ?_ h.newline
    rintro rfl
    exact absurd h.blank (by decide)

/-- What starts with a quote is a quoted stretch, closed or not. -/
theorem exists_quotedOf (rest : List UInt8) :
    ∃ body closed, quotedOf rest = quoted body closed := by
  unfold quotedOf
  split
  · exact ⟨_, true, rfl⟩
  · exact ⟨_, false, rfl⟩

/-- What starts with an opener is a bracket, closed or not. -/
theorem exists_bracketOf (comment : Bool) (level : Nat) (rest : List UInt8) :
    ∃ body closed, bracketOf comment level rest = bracket comment level body closed := by
  unfold bracketOf
  split
  · exact ⟨_, true, rfl⟩
  · exact ⟨_, false, rfl⟩

/-- A word is the first segment only where one begins, and a stray byte only where nothing begins. -/
theorem begins_of_first? {input : List UInt8} {seg : Segment} (h : first? input = some seg) :
    (∀ bytes, seg = word bytes → BeginsWord input) ∧
      (∀ b, seg = stray b → BeginsNothing input) := by
  cases input with
  | nil => cases h
  | cons b rest =>
    cases starts_of_first? h with
    | word hopener hlength =>
      refine ⟨fun _ _ => beginsWord_of_wordLength hopener hlength, ?_⟩
      intro _ hseg
      cases hseg
    | stray hordinary hlength =>
      refine ⟨?_, fun _ _ => beginsNothing_of_wordLength hordinary hlength⟩
      intro _ hseg
      cases hseg
    | bracketComment =>
      obtain ⟨body, closed, hbracket⟩ := exists_bracketOf true _ _
      rw [hbracket]
      constructor <;> intro _ hseg <;> cases hseg
    | bracket =>
      obtain ⟨body, closed, hbracket⟩ := exists_bracketOf false _ _
      rw [hbracket]
      constructor <;> intro _ hseg <;> cases hseg
    | quoted =>
      obtain ⟨body, closed, hquoted⟩ := exists_quotedOf rest
      rw [hquoted]
      constructor <;> intro _ hseg <;> cases hseg
    | _ => constructor <;> intro _ hseg <;> cases hseg

/-- Words alone have the kinds of words. -/
theorem eq_word_of_kind? {seg : Segment} {depth : Nat} {kind : Kind}
    (h : seg.kind? depth = some kind) (hkind : kind = .identifier ∨ kind = .unquoted) :
    ∃ bytes, seg = word bytes := by
  cases seg with
  | word bytes => exact ⟨bytes, rfl⟩
  | quoted body closed => cases closed <;> cases h <;> rcases hkind with hkind | hkind <;> cases hkind
  | bracket comment level body closed =>
    cases comment <;> cases closed <;> cases h <;> rcases hkind with hkind | hkind <;> cases hkind
  | _ => cases h <;> rcases hkind with hkind | hkind <;> cases hkind

/-- Stray bytes alone have the kind of these. -/
theorem eq_stray_of_kind? {seg : Segment} {depth : Nat}
    (h : seg.kind? depth = some .badCharacter) : ∃ b, seg = stray b := by
  cases seg with
  | stray b => exact ⟨b, rfl⟩
  | word bytes =>
    rcases Kind.ofWord_cases depth bytes with hword | hword <;> rw [kind?, hword] at h <;> cases h
  | quoted body closed => cases closed <;> cases h
  | bracket comment level body closed => cases comment <;> cases closed <;> cases h
  | _ => cases h

end Segment

/-! ## What a token says about its start -/

/-- The token `t` is a word or a stray byte exactly if `ahead`, the input from its first byte on, says
so, and then it is what it should be, where `depth` parentheses are open. -/
structure Token.Suits (t : Token) (depth : Nat) (ahead : List UInt8) : Prop where
  /-- It has the kind of a word exactly where one begins. -/
  word_iff : t.kind = .identifier ∨ t.kind = .unquoted ↔ BeginsWord ahead
  /-- Its text is then the longest word. -/
  longest : BeginsWord ahead → IsLongestWord t.text ahead
  /-- It names a command exactly if it can and no parenthesis is open. -/
  identifier_iff : BeginsWord ahead →
    (t.kind = .identifier ↔ IsIdentifier t.text ∧ depth = 0)
  /-- It is a stray byte exactly where nothing begins. -/
  badCharacter_iff : t.kind = .badCharacter ↔ BeginsNothing ahead
  /-- Its text is then this byte. -/
  stray : ∀ b rest, ahead = b :: rest → t.kind = .badCharacter → t.text = [b]

/-- A word names a command exactly if it can and no parenthesis is open. -/
theorem Kind.ofWord_eq_identifier_iff {depth : Nat} {word : List UInt8} :
    Kind.ofWord depth word = .identifier ↔ IsIdentifier word ∧ depth = 0 := by
  rw [Kind.ofWord, ← isIdentifier_iff]
  split
  · rename_i hboth
    simpa [and_comm] using hboth
  · rename_i hnot
    simpa [and_comm] using hnot

/-- Parentheses are counted by the tokens that are parentheses. -/
theorem Kind.depthAfter_eq (depth : Nat) (kind : Kind) :
    kind.depthAfter depth =
      if kind = .parenLeft then min (depth + 1) 0xFFFFFFFF
      else if kind = .parenRight then depth - 1
      else depth := by
  cases kind <;> rfl

/-- The end of the input is neither. -/
theorem Token.suits_of_nothing {t : Token} (h : t.kind = .nothing) (depth : Nat) :
    t.Suits depth [] := by
  have hword : ¬ BeginsWord [] := by
    intro hbegins
    cases hbegins
  have hnothing : ¬ BeginsNothing [] := by
    intro hbegins
    cases hbegins
  have hkind : ¬ (t.kind = .identifier ∨ t.kind = .unquoted) ∧ t.kind ≠ .badCharacter := by
    rw [h]
    decide
  exact ⟨iff_of_false hkind.1 hword, fun hb => absurd hb hword, fun hb => absurd hb hword,
    iff_of_false hkind.2 hnothing, fun _ _ _ hbad => absurd hbad hkind.2⟩

/-- A token suits the input that its segment begins. -/
theorem Token.ComesFrom.suits {t : Token} {depth : Nat} {input : List UInt8}
    (h : t.ComesFrom depth input) : t.Suits depth input := by
  rw [Token.ComesFrom] at h
  cases hfirst : Segment.first? input with
  | none =>
    cases input with
    | nil => exact suits_of_nothing (by simpa [Segment.first?] using h) depth
    | cons b rest => cases hfirst
  | some seg =>
    simp only [hfirst] at h
    obtain ⟨hkind, htext⟩ := h
    obtain ⟨hword, hstray⟩ := Segment.begins_of_first? hfirst
    -- Where a word begins, the segment is known, and so is all that the token takes from it.
    have hbegins : BeginsWord input →
        t.kind = .ofWord depth t.text ∧ t.text = input.take (wordLength input) := by
      intro hbegins
      rw [Segment.first?_of_beginsWord hbegins] at hfirst
      cases hfirst
      rw [htext]
      exact ⟨(Option.some.inj hkind).symm, rfl⟩
    refine ⟨⟨?_, ?_⟩, ?_, ?_, ⟨?_, ?_⟩, ?_⟩
    · intro hkinds
      obtain ⟨bytes, hseg⟩ := Segment.eq_word_of_kind? hkind hkinds
      exact hword bytes hseg
    · intro hb
      rw [(hbegins hb).1]
      exact Kind.ofWord_cases depth t.text
    · intro hb
      rw [(hbegins hb).2]
      exact isLongestWord_wordLength input
    · intro hb
      rw [(hbegins hb).1]
      exact Kind.ofWord_eq_identifier_iff
    · intro hbad
      rw [hbad] at hkind
      obtain ⟨b, hseg⟩ := Segment.eq_stray_of_kind? hkind
      exact hstray b hseg
    · intro hnothing
      cases input with
      | nil => cases hfirst
      | cons b rest =>
        rw [Segment.first?_of_beginsNothing hnothing] at hfirst
        cases hfirst
        exact (Option.some.inj hkind).symm
    · rintro b rest rfl hbad
      rw [hbad] at hkind
      obtain ⟨b', hseg⟩ := Segment.eq_stray_of_kind? hkind
      rw [Segment.first?_of_beginsNothing (hstray b' hseg)] at hfirst
      cases hfirst
      exact htext

namespace Scanner

variable {σ : Type} [Source σ]

/-! ## Every call -/

/-- The number of open parentheses after these readings, where `depth` were open before: each opening
one adds to it, up to the greatest number of 32 bits, and each closing one takes away, down to none. -/
def openAfter (depth : Nat) (readings : List Reading) : Nat :=
  readings.foldl (fun depth r =>
    if r.token.kind = .parenLeft then min (depth + 1) 0xFFFFFFFF
    else if r.token.kind = .parenRight then depth - 1
    else depth) depth

/-- A scanner counts the parentheses of the tokens that it gives. -/
theorem after_depth (n : Nat) (s : Scanner σ) (d : Draft) :
    (after n s d).1.depth = openAfter s.depth (readingsN n s d).1 := by
  induction n generalizing s d with
  | zero => rfl
  | succ n ih =>
    obtain ⟨gap, lexeme, hcut⟩ := (next_scans s d).cut (next s d).1.window.ahead_unread
    have hlater := ih (next s d).1 (next s d).2
    rw [hcut.depth, Kind.depthAfter_eq] at hlater
    exact hlater

/-- Bare words are maximal and sorted by the parentheses around them, and exactly the bytes that begin
nothing are stray, for whatever source, all settings and each call. -/
theorem words_exact {settings : Settings} {source : σ} {b : List UInt8}
    (h : Source.Supplies settings source b) (n : Nat) :
    ∃ start,
      StartsAt settings.emitSpace b (after n (ofSource settings source) Draft.empty)
        (after (n + 1) (ofSource settings source) Draft.empty) start ∧
      (after (n + 1) (ofSource settings source) Draft.empty).2.token.Suits
        (openAfter 0 (readingsN n (ofSource settings source) Draft.empty).1) (b.drop start) := by
  obtain ⟨done, input, hb, hpath, hposition, hemit, hinput⟩ := h.holds.after n
  obtain ⟨gap, lexeme, rest, rfl, hcut, -⟩ := hinput.cut
  have htaken := hpath.taken.trans (Nat.zero_add _)
  have hdepth := after_depth n (ofSource settings source) Draft.empty
  rw [← after_succ] at hcut
  have hstarts := hcut.startsAt hb htaken hposition
  rw [hemit] at hstarts
  refine ⟨(done ++ gap).length, hstarts, ?_⟩
  rw [(offsets_of_append hb).2.1]
  have hsuits := hcut.comesFrom.suits
  rw [hdepth] at hsuits
  exact hsuits

/-- A word in parentheses that begins with an unfinished opener and goes on over an escaped blank. It
comes in pieces, cut inside the opener and behind the backslash. -/
def cutWord : Pieces :=
  ⟨[[Byte.parenLeft, Byte.bracketLeft], [Byte.equals, 0x61, Byte.backslash],
    [Byte.space, 0x62, Byte.parenRight]]⟩

/-- The word in parentheses is an argument, and it is what it should be. -/
theorem words_exact_of_cutWord :
    (after 2 (ofSource ⟨false, 0⟩ cutWord) Draft.empty).2.kind = .unquoted ∧
      ∃ start,
        StartsAt false cutWord.bytes (after 1 (ofSource ⟨false, 0⟩ cutWord) Draft.empty)
          (after 2 (ofSource ⟨false, 0⟩ cutWord) Draft.empty) start ∧
        (after 2 (ofSource ⟨false, 0⟩ cutWord) Draft.empty).2.token.Suits
          (openAfter 0 (readingsN 1 (ofSource ⟨false, 0⟩ cutWord) Draft.empty).1)
          (cutWord.bytes.drop start) := by
  refine ⟨?_, words_exact (cutWord.delivers.supplies ⟨false, 0⟩) 1⟩
  have hkinds : (Context.start.readings false 2 (segments cutWord.bytes)).map (·.token.kind) =
      [.parenLeft, .unquoted] := by decide +kernel
  have hreadings := congrArg (List.map (·.token.kind))
    (readingsN_eq (cutWord.delivers.holds ⟨false, 0⟩ Draft.empty) 2)
  exact List.head_eq_of_cons_eq (List.cons.inj (hreadings.trans hkinds)).2

end Scanner

end Listfile
