import Listfile.Proofs.Delivery
import Listfile.Proofs.Lexeme

/-!
# Positions are exact

A scanner moves its position apart from its window, at every place where it consumes bytes: to the
right by their number, or to the next line. That each of these moves is the right one for the bytes
consumed there is shown with the function that makes it (`Consumes.right`, `Consumes.nextLine`), and
so every segment is left at the position that moving over it byte by byte leads to
(`Reads.context`).

Here this is compared with what it should be: `Position.ofOffset` counts the newlines before an offset
and the bytes since the last of them, each up to the limit, from the bytes of the whole input.

After every call the scanner stands at the position of the next byte that is not consumed, and the
token that the call gives carries the position of the first byte of its lexeme
(`positions_exact`). That byte is the opening delimiter where the kind has one, and the end of the
input is at the offset behind all bytes (`Token.Opens`).
-/

namespace Listfile

/-! ## Counting lines and columns -/

/-- The position of an offset: the line is one more than the number of newlines before it, and the
column is one more than the number of bytes since the last of them, both up to the limit. -/
def Position.ofOffset (b : List UInt8) (offset : Nat) : Position where
  line := min (1 + (b.take offset).count Byte.newline) limit
  column := min (1 + ((b.take offset).reverse.takeWhile (· != Byte.newline)).length) limit

/-- The position after bytes in terms of these counts. The bytes are given backwards, the last one
first, so that the induction goes along them in the order in which they are passed. -/
theorem Position.start_advance_reverse (bytes : List UInt8) :
    start.advance bytes.reverse =
      ⟨min (1 + bytes.count Byte.newline) limit,
        min (1 + (bytes.takeWhile (· != Byte.newline)).length) limit⟩ := by
  induction bytes with
  | nil => decide
  | cons b bytes ih =>
    rw [List.reverse_cons, advance_append, ih, advance_cons, advance_nil, step]
    by_cases hb : b = Byte.newline
    · have hstop : ¬ (b != Byte.newline) = true := by simp [hb]
      rw [if_pos hb, List.takeWhile_cons, if_neg hstop, hb, List.count_cons_self]
      have hlimit : 1 ≤ limit := by decide
      simp only [Position.mk.injEq, List.length_nil]
      omega
    · have hmore : (b != Byte.newline) = true := by simp [hb]
      rw [if_neg hb, List.takeWhile_cons, if_pos hmore, List.count_cons_of_ne hb, List.length_cons]
      simp only [Position.mk.injEq, true_and]
      omega

/-- Moving over the bytes before an offset leads to its position. -/
theorem Position.advance_eq_ofOffset {b done rest : List UInt8} (h : b = done ++ rest) :
    start.advance done = ofOffset b done.length := by
  have hadvance := start_advance_reverse done.reverse
  rw [List.reverse_reverse, List.count_reverse] at hadvance
  rw [hadvance, ofOffset, h, List.take_left]

/-! ## First bytes of lexemes -/

/-- The byte at which a token starts, by its kind: the opening delimiter of what has one, and none at
the end of the input. Any other token starts with its text. -/
def Token.Opens (t : Token) (first : Option UInt8) : Prop :=
  match t.kind with
  | .nothing => first = none
  | .quoted | .badString => first = some Byte.quote
  | .bracket => first = some Byte.bracketLeft
  | .bracketComment => first = some Byte.hash
  | .badBracket => first = some Byte.bracketLeft ∨ first = some Byte.hash
  | _ => first = t.text.head? ∧ first ≠ none

/-- A lexeme begins as its kind says. -/
theorem Token.Lexeme.opens {t : Token} {lexeme rest : List UInt8} (h : t.Lexeme lexeme rest) :
    t.Opens (lexeme ++ rest).head? := by
  have hspells := h.spells
  have htext : lexeme = t.text → t.kind ≠ .nothing →
      (lexeme ++ rest).head? = t.text.head? ∧ (lexeme ++ rest).head? ≠ none := by
    intro htext hkind
    obtain ⟨b, more, hcons⟩ := List.exists_cons_of_ne_nil (h.ne_nil hkind)
    rw [← htext, hcons]
    exact ⟨rfl, Option.some_ne_none b⟩
  unfold Spells at hspells
  unfold Opens
  revert hspells
  cases hkind : t.kind with
  | nothing =>
    intro hspells
    rw [hspells, h.last (.inl hkind)]
    rfl
  | space =>
    intro hspells
    exact htext hspells.1 (by rw [hkind]; decide)
  | quoted =>
    intro hspells
    obtain ⟨body, rfl, -⟩ := hspells
    rfl
  | badString =>
    intro hspells
    obtain ⟨body, rfl, -⟩ := hspells
    rfl
  | bracket =>
    intro hspells
    obtain ⟨level, rfl⟩ := hspells
    rfl
  | bracketComment =>
    intro hspells
    obtain ⟨level, rfl⟩ := hspells
    rfl
  | badBracket =>
    intro hspells
    obtain ⟨level, rfl | rfl⟩ := hspells
    · exact .inl rfl
    · exact .inr rfl
  | _ =>
    intro hspells
    exact htext hspells (by rw [hkind]; decide)

/-! ## What is still to come from memory -/

/-- The bytes of a window on memory that have not been consumed: those unread and those not yet
handed out. -/
def Window.toCome (w : Window Memory) : List UInt8 :=
  w.unread ++ w.source.rest

/-- A move takes the bytes that it consumes off those to come. -/
theorem Window.Move.toCome {w w' : Window Memory} {bytes : List UInt8} (move : Move w bytes w') :
    w.toCome = bytes ++ w'.toCome := by
  cases move with
  | refill hopen _ =>
    obtain ⟨room, answer, -, hanswer, hrefill⟩ := refill_of_open hopen
    have hrest : answer.1 ++ answer.2.rest = w.source.rest := by
      rw [hanswer]
      exact w.source.fill_append_rest room
    simp only [Window.toCome, hrefill, List.nil_append, List.append_assoc, hrest]
  | take _ =>
    simp only [Window.toCome]
    rw [← List.append_assoc, List.take_append_drop]

/-- A path takes the bytes that it consumes off those to come. -/
theorem Window.Path.toCome {w w' : Window Memory} {bytes : List UInt8} (path : Path w bytes w') :
    w.toCome = bytes ++ w'.toCome := by
  induction path with
  | stay w => rfl
  | step move _ ih => rw [move.toCome, ih, List.append_assoc]

namespace Scanner

variable {σ : Type} [Source σ]

/-! ## Every call -/

/-- After any number of calls, a stretch of the input held is done, the position has moved over it,
and the rest is held. -/
theorem Holds.after {s : Scanner σ} {d : Draft} {input : List UInt8} (h : s.Holds d input)
    (n : Nat) :
    ∃ done rest, input = done ++ rest ∧ s.window.Path done (Scanner.after n s d).1.window ∧
      (Scanner.after n s d).1.position = s.position.advance done ∧
      (Scanner.after n s d).1.emitSpace = s.emitSpace ∧
      (Scanner.after n s d).1.Holds (Scanner.after n s d).2 rest := by
  induction n generalizing s d input with
  | zero => exact ⟨[], input, rfl, .stay _, rfl, rfl, h⟩
  | succ n ih =>
    obtain ⟨gap, lexeme, rest, rfl, hcut, hrest⟩ := h.cut
    obtain ⟨done, later, rfl, hpath, hposition, hemit, hlater⟩ := ih hrest
    refine ⟨gap ++ lexeme ++ done, later, ?_, hcut.path.trans hpath, ?_, ?_, hlater⟩
    · simp only [List.append_assoc]
    · rw [Position.advance_append, ← hcut.stop]
      exact hposition
    · rw [← hcut.emitSpace]
      exact hemit

/-- The call that leads from `now` to `later`, on a scanner over `b`, gives a token whose first byte is
at the offset `start`. -/
structure StartsAt (emitSpace : Bool) (b : List UInt8) (now later : Scanner σ × Draft)
    (start : Nat) : Prop where
  /-- The bytes before it have been consumed before the call or are skipped by it. -/
  gap_le : now.1.window.taken ≤ start
  /-- The bytes of the token follow. -/
  lexeme_le : start ≤ later.1.window.taken
  /-- All of them are part of the input. -/
  le : later.1.window.taken ≤ b.length
  /-- What is skipped has no token. -/
  skipped : Skipped emitSpace (b.extract now.1.window.taken start) (b.drop start)
  /-- The token is written as the bytes that follow. -/
  written : later.2.token.Lexeme (b.extract start later.1.window.taken)
    (b.drop later.1.window.taken)
  /-- The token carries the position of this offset. -/
  position : later.2.token.position = Position.ofOffset b start

/-- A call consumes the gap and the lexeme after what is done. -/
theorem Cut.taken {s s' : Scanner σ} {t : Token} {done gap lexeme rest : List UInt8}
    (hcut : s.Cut t s' gap lexeme rest) (htaken : s.window.taken = done.length) :
    s'.window.taken = (done ++ gap ++ lexeme).length := by
  rw [hcut.path.taken, htaken, List.append_assoc]
  exact List.length_append.symm

/-- The token of a call starts where the gap ends, if the scanner has consumed what is done. -/
theorem Cut.startsAt {b done gap lexeme rest : List UInt8} {now later : Scanner σ × Draft}
    (hcut : now.1.Cut later.2.token later.1 gap lexeme rest)
    (hb : b = done ++ (gap ++ (lexeme ++ rest))) (htaken : now.1.window.taken = done.length)
    (hposition : now.1.position = Position.start.advance done) :
    StartsAt now.1.emitSpace b now later (done ++ gap).length := by
  obtain ⟨hgap, hstart, hmiddle, hstop⟩ := offsets_of_append hb
  -- The same bytes, split where the lexeme begins and where it ends.
  have hfront : b = done ++ gap ++ (lexeme ++ rest) := by rw [hb, List.append_assoc]
  have hback : b = done ++ gap ++ lexeme ++ rest := by
    rw [hfront, List.append_assoc (done ++ gap)]
  have hlater := hcut.taken htaken
  constructor
  · rw [htaken]
    exact (List.prefix_append _ _).length_le
  · rw [hlater]
    exact (List.prefix_append _ _).length_le
  · rw [hlater, hback]
    exact (List.prefix_append _ _).length_le
  · rw [htaken, hgap, hstart]
    exact hcut.skipped
  · rw [hlater, hmiddle, hstop]
    exact hcut.lexeme
  · rw [hcut.start, hposition, ← Position.advance_eq_ofOffset hfront, Position.advance_append]

/-- The call that leads from `now` to `later`, on a scanner over `b`, skips the bytes from the offset
`e` to `start`, takes those from `start` to `stop` for its token, and gets the positions right. -/
structure Exact (emitSpace : Bool) (b : List UInt8) (now later : Scanner Memory × Draft)
    (e start stop : Nat) : Prop where
  /-- The gap comes first. -/
  gap_le : e ≤ start
  /-- The lexeme follows it. -/
  lexeme_le : start ≤ stop
  /-- Both are part of the input. -/
  le : stop ≤ b.length
  /-- Before the call the bytes from `e` on are to come. -/
  before : now.1.window.toCome = b.drop e
  /-- After the call the bytes from `stop` on are to come. -/
  after : later.1.window.toCome = b.drop stop
  /-- So far the bytes up to `stop` have been consumed. -/
  taken : later.1.window.taken = stop
  /-- The scanner is at the position of the next byte that is not consumed. -/
  position : later.1.position = Position.ofOffset b stop
  /-- The token carries the position of the first byte of its lexeme. -/
  token : later.2.token.position = Position.ofOffset b start
  /-- The gap has no token. -/
  skipped : Skipped emitSpace (b.extract e start) (b.drop start)
  /-- The token is written as the lexeme. -/
  written : later.2.token.Lexeme (b.extract start stop) (b.drop stop)
  /-- The first byte of the lexeme is the opening delimiter, if the kind has one. -/
  opens : later.2.token.Opens b[start]?

/-- One call is exact, if the scanner has consumed what is done and is at its end. -/
theorem Cut.exact {b done gap lexeme rest : List UInt8} {now later : Scanner Memory × Draft}
    (hcut : now.1.Cut later.2.token later.1 gap lexeme rest)
    (hb : b = done ++ (gap ++ (lexeme ++ rest)))
    (hcome : now.1.window.toCome = gap ++ (lexeme ++ rest))
    (htaken : now.1.window.taken = done.length)
    (hposition : now.1.position = Position.start.advance done) :
    Exact now.1.emitSpace b now later done.length (done ++ gap).length
      (done ++ gap ++ lexeme).length := by
  obtain ⟨-, hstart, -, hstop⟩ := offsets_of_append hb
  have hlater := hcut.taken htaken
  obtain ⟨hgap_le, hlexeme_le, hle, hskipped, hwritten, htoken⟩ := hcut.startsAt hb htaken hposition
  rw [htaken] at hgap_le hskipped
  rw [hlater] at hlexeme_le hle hwritten
  refine ⟨hgap_le, hlexeme_le, hle, ?_, ?_, hlater, ?_, htoken, hskipped, hwritten, ?_⟩
  · rw [hcome, hb, List.drop_left]
  · have hrest := hcut.path.toCome
    rw [hcome, ← List.append_assoc] at hrest
    rw [hstop]
    exact (List.append_cancel_left hrest).symm
  · have hback : b = done ++ gap ++ lexeme ++ rest := by
      rw [hb]
      simp only [List.append_assoc]
    rw [hcut.stop, hposition, ← Position.advance_eq_ofOffset hback]
    simp only [Position.advance_append]
  · rw [← List.head?_drop, hstart]
    exact hcut.lexeme.opens

/-- Positions are exact, for every input, all settings and each call, also after the end of the
input. -/
theorem positions_exact (settings : Settings) (b : List UInt8) (n : Nat) :
    ∃ e start stop, Exact settings.emitSpace b
      (after n (ofSource settings (⟨b⟩ : Memory)) Draft.empty)
      (after (n + 1) (ofSource settings (⟨b⟩ : Memory)) Draft.empty) e start stop := by
  have hholds := (Memory.delivers ⟨b⟩).holds settings Draft.empty
  obtain ⟨done, input, hb, hpath, hposition, hemit, hinput⟩ := hholds.after n
  obtain ⟨gap, lexeme, rest, rfl, hcut, -⟩ := hinput.cut
  -- What is to come and what has been consumed before this call, from the calls before it.
  have hcome : b = done ++ _ := hpath.toCome
  have htaken := hpath.taken
  have hexact := hcut.exact (b := b) hb (List.append_cancel_left (hcome.symm.trans hb))
    (htaken.trans (Nat.zero_add _)) hposition
  rw [hemit] at hexact
  rw [after_add n 1]
  exact ⟨_, _, _, hexact⟩

end Scanner

end Listfile
