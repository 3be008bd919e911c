import Listfile.Proofs.Chunking
import Listfile.Proofs.Tokens

/-!
# Blank runs are tokens of their own and change no other

If blank runs are tokens, a call ends after each of them; if not, the call goes on with the same draft
until another token or the end of the input is found. So with the one choice and the other the calls
are divided up differently. What is read is the same: leaving the blank runs out of the readings with
them gives the readings without them, each with its token, the position of that token and the position
behind it (`readings_eq_filter_of_supplies`). This holds up to the end of the input and for that end
too, and it does not depend on how the bytes arrive.

The context of a segment does not know whether blank runs are tokens. Hence the readings of a list of
segments, `Context.readingsToEnd`, can be compared segment by segment.
-/

namespace Listfile

/-! ## Readings of segments -/

namespace Context

/-- The reading of the end of the input. -/
def endReading (c : Context) : Scanner.Reading :=
  ⟨⟨.nothing, [], c.position⟩, c.position⟩

/-- The readings of consecutive segments up to the end of the input, which is the last of them. -/
def readingsToEnd (emitSpace : Bool) : Context → List Segment → List Scanner.Reading
  | c, [] => [c.endReading]
  | c, seg :: rest =>
    match c.token? emitSpace seg with
    | some t => ⟨t, (c.next seg).position⟩ :: readingsToEnd emitSpace (c.next seg) rest
    | none => readingsToEnd emitSpace (c.next seg) rest

/-- The readings begin with the next token. They stop there if it is the end of the input. -/
theorem readingsToEnd_eq_of_nextToken {emitSpace : Bool} {c c' : Context} {segs segs' : List Segment}
    {t : Token} (h : c.nextToken emitSpace segs = (t, c', segs')) :
    c.readingsToEnd emitSpace segs =
      ⟨t, c'.position⟩ ::
        if t.kind = .nothing then [] else c'.readingsToEnd emitSpace segs' := by
  induction segs generalizing c with
  | nil =>
    rw [nextToken] at h
    cases h
    rfl
  | cons seg rest ih =>
    rw [nextToken] at h
    rw [readingsToEnd]
    cases htoken : c.token? emitSpace seg with
    | none =>
      simp only [htoken] at h
      exact ih h
    | some found =>
      simp only [htoken] at h
      cases h
      rw [if_neg (kind_ne_nothing_of_token? htoken)]

/-- The last reading is that of the end of the input, behind all segments. -/
theorem getLast?_readingsToEnd (emitSpace : Bool) (c : Context) (segs : List Segment) :
    (c.readingsToEnd emitSpace segs).getLast? = some (c.after segs).endReading := by
  induction segs generalizing c with
  | nil => rfl
  | cons seg rest ih =>
    have hlast : ((c.next seg).readingsToEnd emitSpace rest).getLast? =
        some (c.after (seg :: rest)).endReading := ih (c.next seg)
    rw [readingsToEnd]
    cases c.token? emitSpace seg with
    | none => exact hlast
    | some t => rw [List.getLast?_cons, hlast, Option.getD_some]

/-- Where blank runs are no tokens, the readings are the others. -/
theorem readingsToEnd_false (emitSpace : Bool) (c : Context) (segs : List Segment) :
    c.readingsToEnd false segs =
      (c.readingsToEnd emitSpace segs).filter fun r => r.token.kind ≠ .space := by
  induction segs generalizing c with
  | nil => rfl
  | cons seg rest ih =>
    rw [readingsToEnd, readingsToEnd, token?_false emitSpace]
    cases c.token? emitSpace seg with
    | none =>
      rw [Option.filter_none]
      exact ih (c.next seg)
    | some t =>
      by_cases hspace : t.kind = .space
      · rw [Option.filter_some_neg (by simpa using hspace),
          List.filter_cons_of_neg (by simpa using hspace)]
        exact ih (c.next seg)
      · rw [Option.filter_some_pos (by simpa using hspace),
          List.filter_cons_of_pos (by simpa using hspace), ← ih (c.next seg)]

end Context

namespace Scanner

/-! ## Readings of a scanner -/

/-- The readings of a scanner up to the end are those of the segments of the input that it holds. -/
theorem Holds.readings_eq {σ : Type} [Source σ] {s : Scanner σ} {d : Draft} {input : List UInt8}
    (h : s.Holds d input) :
    (readings s d).1 = s.context.readingsToEnd s.emitSpace (segments input) := by
  -- A call that gives another token than the end leaves a smaller window.
  fun_induction readings s d generalizing input with
  | case1 s d r =>
    rename_i hkind
    obtain ⟨bytes, hpath, -, hnext⟩ := (next_scans s d).agrees
    obtain ⟨rest, rfl, hrest⟩ := h.next hpath
    have hkind' : (Scanner.next s d).2.token.kind = .nothing := hkind
    rw [Context.readingsToEnd_eq_of_nextToken (hnext rest hrest.ahead), if_pos hkind']
    rfl
  | case2 s d r hkind hafter more =>
    rename_i ih
    obtain ⟨bytes, hpath, hemit, hnext⟩ := (next_scans s d).agrees
    obtain ⟨rest, rfl, hrest⟩ := h.next hpath
    have hkind' : (Scanner.next s d).2.token.kind ≠ .nothing := hkind
    rw [Context.readingsToEnd_eq_of_nextToken (hnext rest hrest.ahead), if_neg hkind', ← hemit]
    exact congrArg (List.cons _) (ih hrest)

/-- Asking for blank runs only adds their tokens: if two sources supply the same bytes, in whatever
pieces and for whatever chunk sizes, then the readings without blank runs are those with them less the
blank runs, and both come to the same end. -/
theorem readings_eq_filter_of_supplies {σ₁ σ₂ : Type} [Source σ₁] [Source σ₂]
    {settings₁ settings₂ : Settings} {source₁ : σ₁} {source₂ : σ₂} {bytes : List UInt8}
    (hoff : settings₁.emitSpace = false) (hon : settings₂.emitSpace = true)
    (h₁ : Source.Supplies settings₁ source₁ bytes)
    (h₂ : Source.Supplies settings₂ source₂ bytes) :
    (readings (ofSource settings₁ source₁) Draft.empty).1 =
        (readings (ofSource settings₂ source₂) Draft.empty).1.filter
          (fun r => r.token.kind ≠ .space) ∧
      ∃ p, (readings (ofSource settings₁ source₁) Draft.empty).1.getLast? =
          some ⟨⟨.nothing, [], p⟩, p⟩ ∧
        (readings (ofSource settings₂ source₂) Draft.empty).1.getLast? =
          some ⟨⟨.nothing, [], p⟩, p⟩ := by
  have hfirst : (readings (ofSource settings₁ source₁) Draft.empty).1 =
      Context.start.readingsToEnd false (segments bytes) := by
    rw [h₁.holds.readings_eq, ← hoff]
    rfl
  have hsecond : (readings (ofSource settings₂ source₂) Draft.empty).1 =
      Context.start.readingsToEnd true (segments bytes) := by
    rw [h₂.holds.readings_eq, ← hon]
    rfl
  rw [hfirst, hsecond]
  refine ⟨Context.readingsToEnd_false _ _ _, (Context.start.after (segments bytes)).position, ?_, ?_⟩
  · exact Context.getLast?_readingsToEnd false Context.start (segments bytes)
  · exact Context.getLast?_readingsToEnd true Context.start (segments bytes)

/-- Blanks before a comment, between its line and a word, and at the end: all at once without them as
tokens, and cut inside each run with them. -/
theorem readings_memory_eq_filter_pieces :
    (readings (ofSource ⟨false, 4096⟩
        (⟨[Byte.space, Byte.tab, Byte.hash, Byte.space, Byte.newline, Byte.tab, Byte.space, 0x61,
          Byte.space]⟩ : Memory)) Draft.empty).1 =
      (readings (ofSource ⟨true, 0⟩
        (⟨[[Byte.space], [Byte.tab, Byte.hash], [Byte.space, Byte.newline, Byte.tab], [Byte.space,
          0x61, Byte.space]]⟩ : Pieces)) Draft.empty).1.filter
          (fun r => r.token.kind ≠ .space) := by
  have hmemory := (Memory.delivers ⟨[Byte.space, Byte.tab, Byte.hash, Byte.space, Byte.newline,
    Byte.tab, Byte.space, 0x61, Byte.space]⟩).supplies ⟨false, 4096⟩
  have hpieces := (Pieces.delivers ⟨[[Byte.space], [Byte.tab, Byte.hash], [Byte.space, Byte.newline,
    Byte.tab], [Byte.space, 0x61, Byte.space]]⟩).supplies ⟨true, 0⟩
  exact (readings_eq_filter_of_supplies rfl rfl hmemory hpieces).1

end Scanner

end Listfile
