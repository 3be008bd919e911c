import Listfile.Proofs.Segment
import Listfile.Proofs.Scanner.Gap
import Listfile.Scanner.Enter

/-!
# What is entered is the segment that comes next

The scanner and `Segment.first?` decide in different ways what comes next: one looks at its window a
byte or two at a time and puts bytes on a draft that it may have to take off again, the other has the
whole rest of the input before it. Here they are shown to agree, up to where `Scanner.enter` leaves the
rest of a segment to others.

* `s.Reads seg s'` says that the scanner passes exactly the bytes of the segment, keeps the context
  as `Context.next` does, and that whatever lies ahead afterwards, the segment came first.
* `EntryReads` says of each sort of entry what has been read: a whole segment, or the opening bytes of
  one together with what they exclude.
* `enter_ok`: entering never runs into a violation, and it has read what its entry says.
-/

namespace Listfile.Scanner

variable {σ : Type} [Source σ]

/-- The context in which a scanner reads the next segment. -/
def context (s : Scanner σ) : Context :=
  ⟨s.position, s.depth⟩

/-- The scanner `s` becomes `s'` by reading the segment `seg`. -/
structure Reads (s : Scanner σ) (seg : Segment) (s' : Scanner σ) : Prop where
  /-- The window has gone along a path over the bytes of the segment. -/
  path : s.window.Path seg.spelling s'.window
  /-- The context is the one after the segment. -/
  context : s'.context = s.context.next seg
  /-- Blank runs are tokens if they were before. -/
  emitSpace : s'.emitSpace = s.emitSpace
  /-- Whatever lies ahead, the segment came first. -/
  first : ∀ rest, s'.window.Ahead rest → Segment.first? (seg.spelling ++ rest) = some seg

/-- Passing nothing leaves the context as it is. -/
theorem Passes.context_eq {s s' : Scanner σ} (h : s.Passes [] s') : s'.context = s.context := by
  rw [context, h.position, h.depth]
  rfl

/-- Passing the bytes of a segment that changes no depth is reading it. -/
theorem Passes.reads {s s' : Scanner σ} {seg : Segment} (h : s.Passes seg.spelling s')
    (hdepth : (s.context.next seg).depth = s.depth)
    (hfirst : ∀ rest, s'.window.Ahead rest → Segment.first? (seg.spelling ++ rest) = some seg) :
    s.Reads seg s' := by
  refine ⟨h.path, ?_, h.emitSpace, hfirst⟩
  rw [context, h.position, h.depth, ← hdepth]
  rfl

/-- A scanner that has passed nothing yet reads what it reads afterwards, in the same context. -/
theorem Reads.of_passes_nil {s s₁ s' : Scanner σ} {seg : Segment} (h : s.Passes [] s₁)
    (hreads : s₁.Reads seg s') : s.Reads seg s' := by
  refine ⟨h.path.trans hreads.path, ?_, ?_, hreads.first⟩
  · rw [hreads.context, h.context_eq]
  · rw [hreads.emitSpace, h.emitSpace]

/-! ## Tokens -/

/-- The scanner `s` reads a segment and `t` is its token. -/
def ReadsToken (s : Scanner σ) (t : Token) (s' : Scanner σ) : Prop :=
  ∃ seg, s.Reads seg s' ∧ s.context.token? s.emitSpace seg = some t

/-- A scanner that has passed nothing yet reads the token that it reads afterwards. -/
theorem ReadsToken.of_passes_nil {s s₁ s' : Scanner σ} {t : Token} (h : s.Passes [] s₁)
    (hreads : s₁.ReadsToken t s') : s.ReadsToken t s' := by
  obtain ⟨seg, hseg, htoken⟩ := hreads
  rw [h.context_eq, h.emitSpace] at htoken
  exact ⟨seg, hseg.of_passes_nil h, htoken⟩

/-- A token of one byte is read by taking that byte, if the position is moved past it. -/
theorem reads_of_single {s s' : Scanner σ} {b : UInt8} {kind : Kind} (seg : Segment)
    (hpass : s.Passes [b] s') (hspelling : seg.spelling = [b])
    (hkind : seg.kind? s.depth = some kind)
    (hfirst : ∀ rest, s.window.Ahead (b :: rest) → Segment.first? (b :: rest) = some seg) :
    s.Reads seg { s' with depth := kind.depthAfter s.depth } := by
  refine ⟨?_, ?_, hpass.emitSpace, ?_⟩
  · rw [hspelling]
    exact hpass.path
  · simp only [context, Context.next, hspelling, hkind, hpass.position]
  · intro rest hrest
    rw [hspelling]
    exact hfirst rest (hpass.ahead hrest)

/-- A segment of one byte other than a newline is read as a token. -/
theorem single_ok {s : Scanner σ} {b : UInt8} (d : Draft) {kind : Kind} (seg : Segment)
    (hhead : s.window.unread.head? = some b) (hline : b ≠ Byte.newline)
    (hspelling : seg.spelling = [b]) (htext : seg.text = [b]) (hkind : seg.kind? s.depth = some kind)
    (hspace : kind ≠ .space)
    (hfirst : ∀ rest, s.window.Ahead (b :: rest) → Segment.first? (b :: rest) = some seg) :
    ∃ s' d', single kind s d = .ok (s', d') ∧ s.ReadsToken d'.token s' := by
  obtain ⟨s₁, hone, hconsumes, -, -⟩ := take_one_ok hhead
  have hpass := hconsumes.right fun hmem => hline (List.mem_singleton.1 hmem).symm
  refine ⟨_, ((d.start s.position).set [b]).finish kind, ?_, seg,
    reads_of_single seg hpass hspelling hkind hfirst, ?_⟩
  · simp only [single, hone, bind, Except.bind, pure, Except.pure]
    rfl
  · rw [Context.token?_of_ne_space hkind hspace, htext]
    rfl

/-- A newline is read as a token: the move past it to the right is undone by the one to the next
line. -/
theorem lineEnd_ok {s : Scanner σ} (d : Draft)
    (hhead : s.window.unread.head? = some Byte.newline) :
    ∃ s' d', lineEnd s d = .ok (s', d') ∧ s.ReadsToken d'.token s' := by
  obtain ⟨s₁, hone, hconsumes, -, -⟩ := take_one_ok hhead
  have hpass := hconsumes.nextLine_of_newline
  refine ⟨_, ((d.start s.position).set [Byte.newline]).finish .newline, ?_, .newline,
    reads_of_single .newline hpass rfl rfl fun rest _ => rfl, rfl⟩
  simp only [lineEnd, single, hone, bind, Except.bind, pure, Except.pure, Scanner.right,
    Scanner.nextLine, Position.nextLine_right]

/-- A word is read to its end, if the bytes passed before belong to it and no opener stands there. -/
theorem readsToken_of_word {s s₁ s' : Scanner σ} {d d' : Draft} {bytes : List UInt8}
    (hpass : s.Passes bytes s₁) (htext : d.text = bytes) (hposition : d.position = s.position)
    (hlength : ∀ rest, wordLength (bytes ++ rest) = bytes.length + wordLength rest)
    (hpos : ∀ rest, s₁.window.Ahead rest → 0 < wordLength (bytes ++ rest))
    (hopener : ∀ rest, s₁.window.Ahead rest → openerLevel? (bytes ++ rest) = none)
    (h : WordRead s₁ d s' d') : s.ReadsToken d'.token s' := by
  obtain ⟨more, hmore, htoken, hword⟩ := h
  refine ⟨.word (bytes ++ more), Passes.reads (hpass.trans hmore) ?_ ?_, ?_⟩
  · simp only [Context.next, Segment.kind?, Kind.ofWord]
    split <;> rfl
  · intro rest hrest
    have hahead := hmore.ahead hrest
    have hwhole : wordLength (bytes ++ (more ++ rest)) = (bytes ++ more).length := by
      rw [hlength, hword rest hrest, List.length_append]
    have hne : bytes ++ more ≠ [] := by
      rw [← List.length_pos_iff, ← hwhole]
      exact hpos _ hahead
    show Segment.first? (bytes ++ more ++ rest) = _
    refine Segment.first?_word hne ?_ ?_
    · rw [List.append_assoc]
      exact hwhole
    · rw [List.append_assoc]
      exact hopener _ hahead
  · rw [Context.token?_of_ne_space rfl (Kind.ofWord_ne_space _ _), htoken, htext, hposition, hpass.depth]
    rfl

/-- A bare word is read from its first byte on, where one begins. -/
theorem bareWord_ok {s : Scanner σ} (d : Draft)
    (hpos : ∀ rest, s.window.Ahead rest → 0 < wordLength rest)
    (hopener : ∀ rest, s.window.Ahead rest → openerLevel? rest = none) :
    ∃ s' d', bareWord s d = .ok (s', d') ∧ s.ReadsToken d'.token s' := by
  obtain ⟨s', d', hok, hword⟩ := word_ok s (d.start s.position)
  refine ⟨s', d', hok, readsToken_of_word (Passes.refl s) rfl rfl ?_ hpos hopener hword⟩
  intro rest
  rw [List.nil_append, List.length_nil, Nat.zero_add]

/-- A backslash with a byte after it that it can escape begins a word. -/
theorem escapedWord_ok {s : Scanner σ} {c : UInt8} (d : Draft)
    (hhead : s.window.unread.head? = some Byte.backslash) (hc : s.window.unread[1]? = some c)
    (hline : c ≠ Byte.newline) :
    ∃ s' d', bareWord s d = .ok (s', d') ∧ s.ReadsToken d'.token s' := by
  obtain ⟨more, hmore⟩ := List.head?_eq_some_iff.1 hhead
  rw [hmore, List.getElem?_cons_succ, ← List.head?_eq_getElem?] at hc
  obtain ⟨later, rfl⟩ := List.head?_eq_some_iff.1 hc
  refine bareWord_ok d ?_ ?_
  · intro rest hrest
    obtain ⟨tail, rfl⟩ := hrest.unread
    rw [hmore, List.cons_append, List.cons_append, wordLength_pair hline]
    omega
  · intro rest hrest
    obtain ⟨tail, rfl⟩ := hrest.unread
    rw [hmore]
    exact Segment.openerLevel?_of_ne (by decide) _

/-- A bare byte begins a word, if it is no opening bracket. -/
theorem bareByte_ok {s : Scanner σ} {b : UInt8} (d : Draft)
    (hhead : s.window.unread.head? = some b) (hbare : Byte.isBare b = true)
    (hbracket : b ≠ Byte.bracketLeft) :
    ∃ s' d', bareWord s d = .ok (s', d') ∧ s.ReadsToken d'.token s' := by
  obtain ⟨later, hlater⟩ := List.head?_eq_some_iff.1 hhead
  refine bareWord_ok d ?_ ?_
  · intro rest hrest
    obtain ⟨tail, rfl⟩ := hrest.unread
    rw [hlater, List.cons_append, wordLength_cons_of_isBare hbare]
    omega
  · intro rest hrest
    obtain ⟨tail, rfl⟩ := hrest.unread
    rw [hlater]
    exact Segment.openerLevel?_of_ne hbracket _

/-- A backslash that escapes nothing is a token of its own. -/
theorem loneBackslash_ok {s : Scanner σ} (d : Draft)
    (hhead : s.window.unread.head? = some Byte.backslash) (hready : s.window.Ready 2)
    (hpair : isEscapable s.window.unread[1]? = false) :
    ∃ s' d', single .badCharacter s d = .ok (s', d') ∧ s.ReadsToken d'.token s' := by
  have hordinary : Segment.Ordinary Byte.backslash := by constructor <;> decide
  apply single_ok d (.stray Byte.backslash) hhead (by decide) rfl rfl rfl (by decide)
  intro rest hrest
  refine Segment.first?_stray hordinary (by decide) (wordLength_eq_zero ?_ ?_)
  · intro c hc
    cases hc
    decide
  · intro _
    rw [hrest.getElem?_eq hready (by omega)]
    exact hpair

/-- A byte that begins nothing else is a token of its own. -/
theorem stray_ok {s : Scanner σ} {b : UInt8} (d : Draft)
    (hhead : s.window.unread.head? = some b) (hordinary : Segment.Ordinary b)
    (hbare : Byte.isBare b = false) (hback : b ≠ Byte.backslash) (hbracket : b ≠ Byte.bracketLeft) :
    ∃ s' d', single .badCharacter s d = .ok (s', d') ∧ s.ReadsToken d'.token s' := by
  apply single_ok d (.stray b) hhead hordinary.newline rfl rfl rfl (by decide)
  intro rest _
  refine Segment.first?_stray hordinary hbracket (wordLength_eq_zero ?_ ?_)
  · intro c hc
    cases hc
    exact hbare
  · intro hc
    cases hc
    exact absurd rfl hback

/-- The token that starts with the next byte is read, if that opens nothing. -/
theorem tokenAt_ok {s : Scanner σ} {b : UInt8} (d : Draft)
    (hhead : s.window.unread.head? = some b) (hblank : Byte.isBlank b = false)
    (hhash : b ≠ Byte.hash) (hbracket : b ≠ Byte.bracketLeft) (hquote : b ≠ Byte.quote) :
    ∃ s' d', tokenAt b s d = .ok (s', d') ∧ s.ReadsToken d'.token s' := by
  unfold tokenAt
  by_cases hnewline : b = Byte.newline
  · rw [if_pos hnewline]
    subst hnewline
    exact lineEnd_ok d hhead
  rw [if_neg hnewline]
  by_cases hleft : b = Byte.parenLeft
  · rw [if_pos hleft]
    subst hleft
    exact single_ok d .parenLeft hhead hnewline rfl rfl rfl (by decide) fun rest _ => rfl
  rw [if_neg hleft]
  by_cases hright : b = Byte.parenRight
  · rw [if_pos hright]
    subst hright
    exact single_ok d .parenRight hhead hnewline rfl rfl rfl (by decide) fun rest _ => rfl
  rw [if_neg hright]
  by_cases hback : b = Byte.backslash
  · rw [if_pos hback]
    subst hback
    -- The byte after the backslash has to be made ready first.
    obtain ⟨hpeek, hready⟩ := peek_one_consumes hhead
    have hhead₁ := peek_head hhead 1
    dsimp only
    by_cases hpair : isEscapable (s.peek 1).1 = true
    · obtain ⟨c, hc, hline⟩ := isEscapable_iff.1 hpair
      rw [if_pos hpair]
      obtain ⟨s', d', hok, hreads⟩ := escapedWord_ok d hhead₁ hc hline
      exact ⟨s', d', hok, hreads.of_passes_nil hpeek.passes_nil⟩
    · rw [if_neg hpair]
      obtain ⟨s', d', hok, hreads⟩ :=
        loneBackslash_ok d hhead₁ hready (Bool.eq_false_iff.2 hpair)
      exact ⟨s', d', hok, hreads.of_passes_nil hpeek.passes_nil⟩
  rw [if_neg hback]
  by_cases hbare : Byte.isBare b = true
  · rw [if_pos hbare]
    exact bareByte_ok d hhead hbare hbracket
  · rw [if_neg hbare]
    exact stray_ok d hhead ⟨hblank, hnewline, hleft, hright, hhash, hquote⟩
      (Bool.eq_false_iff.2 hbare) hback hbracket

/-! ## Entries -/

/-- The hash, if there is one. -/
def openingHash (comment : Bool) : List UInt8 :=
  if comment then [Byte.hash] else []

/-- What has been read when an entry is made. -/
inductive EntryReads (s : Scanner σ) : Entry σ → Prop where
  /-- A segment has been read, and its token is the draft's. -/
  | token {s' : Scanner σ} {d' : Draft} (reads : s.ReadsToken d'.token s') :
      EntryReads s (.token s' d')
  /-- Nothing is left to be read. -/
  | ended {s' : Scanner σ} {d' : Draft} (pass : s.Passes [] s') (atEnd : s'.window.AtEnd)
      (token : d'.token = ⟨.nothing, [], s.position⟩) : EntryReads s (.token s' d')
  /-- A segment without a token has been read. -/
  | passed {s' : Scanner σ} {d' : Draft} {seg : Segment} (reads : s.Reads seg s')
      (silent : s.context.token? s.emitSpace seg = none) : EntryReads s (.passed s' d')
  /-- A hash has been passed, and bytes after it that stay on the line and begin no opener, whatever
  lies ahead. -/
  | lineComment {s' : Scanner σ} {d' : Draft} {bytes : List UInt8}
      (pass : s.Passes (Byte.hash :: bytes) s') (line : Byte.newline ∉ bytes)
      (opener : ∀ rest, s'.window.Ahead rest → openerLevel? (bytes ++ rest) = none) :
      EntryReads s (.lineComment s' d')
  /-- A quote has been passed, and the draft has been begun there. -/
  | quoted {s' : Scanner σ} {d' : Draft} (pass : s.Passes [Byte.quote] s') (text : d'.text = [])
      (position : d'.position = s.position) : EntryReads s (.quoted s' d')
  /-- An opener has been passed, perhaps behind a hash, and the draft has been begun there. -/
  | bracket (comment : Bool) {level : Nat} {s' : Scanner σ} {d' : Draft}
      (pass : s.Passes (openingHash comment ++ opener level) s') (text : d'.text = [])
      (position : d'.position = s.position) :
      EntryReads s (.bracket level (if comment then .bracketComment else .bracket) s' d')

/-- A scanner that has passed nothing yet enters what it enters afterwards. -/
theorem EntryReads.of_passes_nil {s s₁ : Scanner σ} {e : Entry σ} (h : s.Passes [] s₁)
    (hentry : EntryReads s₁ e) : EntryReads s e := by
  have hposition : s₁.position = s.position := h.position
  cases hentry with
  | token hreads => exact .token (hreads.of_passes_nil h)
  | ended hpass hend htoken => exact .ended (h.trans hpass) hend (by rw [htoken, hposition])
  | passed hreads hsilent =>
    rw [h.context_eq, h.emitSpace] at hsilent
    exact .passed (hreads.of_passes_nil h) hsilent
  | lineComment hpass hline hopener => exact .lineComment (h.trans hpass) hline hopener
  | quoted hpass htext hstart => exact .quoted (h.trans hpass) htext (hstart.trans hposition)
  | bracket comment hpass htext hstart =>
    exact .bracket comment (h.trans hpass) htext (hstart.trans hposition)

/-- A run of blanks is read, as a token if the settings ask for it. -/
theorem blank_ok {s : Scanner σ} {b : UInt8} (d : Draft) (hhead : s.window.unread.head? = some b)
    (hblank : Byte.isBlank b = true) : ∃ e, blank s d = .ok e ∧ EntryReads s e := by
  obtain ⟨s', d', hok, run, hpass, hall, htext, hposition, hstop⟩ :=
    blanks_ok s (d.start s.position)
  have hne : run ≠ [] := by
    rintro rfl
    -- With no blank passed, the next byte would still be the blank.
    have hahead := hpass.ahead s'.window.ahead_unread
    have hnext := hahead.head?_eq (Window.ready_of_head hhead)
    rw [hhead] at hnext
    rw [hstop _ s'.window.ahead_unread b hnext] at hblank
    cases hblank
  have hreads : s.Reads (.blank run) s' :=
    Passes.reads hpass rfl fun rest hrest => Segment.first?_blank hne hall (hstop rest hrest)
  simp only [blank, hok, bind, Except.bind, pure, Except.pure]
  cases hemit : s.emitSpace with
  | true =>
    refine ⟨_, rfl, .token ⟨_, hreads, ?_⟩⟩
    rw [hemit] at htext ⊢
    rw [Draft.token, Draft.kind_finish, Draft.text_finish, Draft.position_finish, htext, hposition]
    rfl
  | false =>
    refine ⟨_, rfl, .passed hreads ?_⟩
    rw [hemit]
    rfl

/-- There is no newline in a bracket and equals signs. -/
theorem newline_not_mem_signs (n : Nat) :
    Byte.newline ∉ Byte.bracketLeft :: List.replicate n Byte.equals := by
  rw [List.mem_cons, not_or]
  refine ⟨by decide, fun hmem => ?_⟩
  exact absurd (List.eq_of_mem_replicate hmem) (by decide)

/-- A comment is entered from its hash on, as a bracket if an opener follows. -/
theorem comment_ok {s : Scanner σ} (d : Draft)
    (hhead : s.window.unread.head? = some Byte.hash) :
    ∃ e, comment s d = .ok e ∧ EntryReads s e := by
  obtain ⟨s₁, hone, hconsumes, -, -⟩ := take_one_ok hhead
  obtain ⟨hpeek, hready⟩ := (s₁.right 1).peek_zero_consumes
  have hpass : s.Passes [Byte.hash] ((s₁.right 1).peek 0).2 := by
    have hboth := (hconsumes.right (by decide)).trans hpeek.passes_nil
    rwa [List.append_nil] at hboth
  have hnext := (s₁.right 1).peek_zero_fst
  simp only [comment, hone, bind, Except.bind, pure, Except.pure]
  by_cases hbracket : ((s₁.right 1).peek 0).1 = some Byte.bracketLeft
  · rw [if_pos hbracket]
    obtain ⟨level, s₂, d₂, hopen, hread⟩ :=
      openBracket_ok (d.start s.position) (hnext.symm.trans hbracket)
    simp only [hopen]
    cases hread with
    | complete hopener htext hposition =>
      exact ⟨_, rfl, .bracket true (hpass.trans hopener) htext hposition⟩
    | incomplete hbytes htext hposition hsigns hstop =>
      obtain ⟨n, rfl⟩ := hsigns
      exact ⟨_, rfl, .lineComment (hpass.trans hbytes) (newline_not_mem_signs n) hstop⟩
  · rw [if_neg hbracket]
    refine ⟨_, rfl, .lineComment hpass List.not_mem_nil ?_⟩
    intro rest hrest
    rw [hnext, ← hrest.head?_eq hready] at hbracket
    cases rest with
    | nil => rfl
    | cons b rest =>
      refine Segment.openerLevel?_of_ne ?_ rest
      rintro rfl
      exact hbracket rfl

/-- A bracket argument is entered from its first bracket on, and a word that starts like one is
read. -/
theorem bracketArgument_ok {s : Scanner σ} (d : Draft)
    (hhead : s.window.unread.head? = some Byte.bracketLeft) :
    ∃ e, bracketArgument s d = .ok e ∧ EntryReads s e := by
  obtain ⟨level, s₁, d₁, hopen, hread⟩ := openBracket_ok (d.start s.position) hhead
  simp only [bracketArgument, hopen, bind, Except.bind]
  cases hread with
  | complete hpass htext hposition => exact ⟨_, rfl, .bracket false hpass htext hposition⟩
  | incomplete hpass htext hposition hsigns hstop =>
    obtain ⟨n, rfl⟩ := hsigns
    obtain ⟨s', d', hok, hword⟩ := word_ok s₁ d₁
    have hbare : ∀ b ∈ Byte.bracketLeft :: List.replicate n Byte.equals, Byte.isBare b = true := by
      intro b hb
      rcases List.mem_cons.1 hb with rfl | hb
      · decide
      · rw [List.eq_of_mem_replicate hb]
        decide
    have hlength := wordLength_append_of_isBare hbare
    simp only [hok]
    refine ⟨_, rfl, .token (readsToken_of_word hpass htext hposition hlength ?_ hstop hword)⟩
    intro rest _
    rw [hlength, List.length_cons]
    omega

/-- A quoted argument is entered by its quote. -/
theorem quotedArgument_ok {s : Scanner σ} (d : Draft)
    (hhead : s.window.unread.head? = some Byte.quote) :
    ∃ e, quotedArgument s d = .ok e ∧ EntryReads s e := by
  obtain ⟨s₁, hone, hconsumes, -, -⟩ := take_one_ok hhead
  simp only [quotedArgument, hone, bind, Except.bind, pure, Except.pure]
  exact ⟨_, rfl, .quoted (hconsumes.right (by decide)) rfl rfl⟩

/-- Entering succeeds, whatever lies ahead, and has read what its entry says. -/
theorem enter_ok (s : Scanner σ) (d : Draft) : ∃ e, enter s d = .ok e ∧ EntryReads s e := by
  obtain ⟨hpeek, hready⟩ := s.peek_zero_consumes
  have hnext := s.peek_zero_fst
  simp only [enter]
  cases hhead : (s.peek 0).1 with
  | none =>
    rw [hhead] at hnext
    have hunread := List.head?_eq_none_iff.1 hnext.symm
    refine ⟨_, rfl, .ended hpeek.passes_nil ⟨hunread, hready.resolve_left ?_⟩ rfl⟩
    rw [hunread]
    decide
  | some b =>
    rw [hhead] at hnext
    have hback : ∀ {x : Except Violation (Entry σ)},
        (∃ e, x = .ok e ∧ EntryReads (s.peek 0).2 e) → ∃ e, x = .ok e ∧ EntryReads s e := by
      rintro x ⟨e, hok, hentry⟩
      exact ⟨e, hok, hentry.of_passes_nil hpeek.passes_nil⟩
    apply hback
    dsimp only
    by_cases hblank : Byte.isBlank b = true
    · rw [if_pos hblank]
      exact blank_ok d hnext.symm hblank
    rw [if_neg hblank]
    by_cases hhash : b = Byte.hash
    · rw [if_pos hhash]
      exact comment_ok d (by rw [← hnext, hhash])
    rw [if_neg hhash]
    by_cases hbracket : b = Byte.bracketLeft
    · rw [if_pos hbracket]
      exact bracketArgument_ok d (by rw [← hnext, hbracket])
    rw [if_neg hbracket]
    by_cases hquote : b = Byte.quote
    · rw [if_pos hquote]
      exact quotedArgument_ok d (by rw [← hnext, hquote])
    rw [if_neg hquote]
    obtain ⟨s', d', hok, hreads⟩ :=
      tokenAt_ok d hnext.symm (Bool.eq_false_iff.2 hblank) hhash hbracket hquote
    simp only [hok, bind, Except.bind, pure, Except.pure]
    exact ⟨_, rfl, .token hreads⟩

end Listfile.Scanner
