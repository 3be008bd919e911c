import Listfile.Proofs.Lexer
import Listfile.Proofs.Lossless

/-!
# All tokens of an input

The tokens of an input can be had in three ways: from its segments (`tokensOf`), from a scanner that
is asked until the input ends (`Scanner.tokens`), and from a lexer that is drained (`Lexer.drain`).
They are the same tokens.

* A scanner gives the tokens of the segments of what it holds (`Scanner.Holds.tokens_eq`), and a
  session drains to the tokens of its scanner (`Session.drain_eq_tokens`).
* `tokenize` is what a lexer with the default settings gives for bytes in memory
  (`tokenize_eq_drain`).
* The segments of an input, written out one after the other, are the input
  (`flatMap_spelling_segments`).
* Leaving blank runs out changes no other token (`tokensOf_false_eq_filter`).
-/

namespace Listfile

/-! ## Tokens of segments -/

/-- Segments whose next token is the end of the input have no tokens, and all others have that token
first and those of the segments after it. -/
theorem tokensOf_eq_of_nextToken {emitSpace : Bool} {c c' : Context} {segs segs' : List Segment}
    {t : Token} (h : c.nextToken emitSpace segs = (t, c', segs')) :
    (t.kind = .nothing ∧ tokensOf emitSpace c segs = []) ∨
      (t.kind ≠ .nothing ∧ tokensOf emitSpace c segs = t :: tokensOf emitSpace c' segs') := by
  induction segs generalizing c with
  | nil =>
    rw [Context.nextToken] at h
    obtain ⟨rfl, -⟩ := Prod.mk.inj h
    exact .inl ⟨rfl, rfl⟩
  | cons seg rest ih =>
    rw [Context.nextToken] at h
    cases htoken : c.token? emitSpace seg with
    | none =>
      simp only [htoken] at h
      simpa only [tokensOf, htoken, Option.toList_none, List.nil_append] using ih h
    | some found =>
      simp only [htoken] at h
      cases h
      refine .inr ⟨Context.kind_ne_nothing_of_token? htoken, ?_⟩
      rw [tokensOf, htoken]
      rfl

/-- A segment has a token where blank runs are none if it has one anyhow and that is no blank run. -/
theorem Context.token?_false (emitSpace : Bool) (c : Context) (seg : Segment) :
    c.token? false seg = (c.token? emitSpace seg).filter fun t => t.kind ≠ .space := by
  cases hkind : seg.kind? c.depth with
  | none => simp only [token?, hkind, Option.filter_none]
  | some kind =>
    by_cases hspace : kind = .space
    · rw [hspace] at hkind
      simp only [token?, hkind]
      cases emitSpace <;> rfl
    · rw [token?_of_ne_space hkind hspace, token?_of_ne_space hkind hspace,
        Option.filter_some_pos (by simpa using hspace)]

/-- Where blank runs are no tokens, the tokens are the others. -/
theorem tokensOf_false_eq_filter (emitSpace : Bool) (c : Context) (segs : List Segment) :
    tokensOf false c segs = (tokensOf emitSpace c segs).filter fun t => t.kind ≠ .space := by
  induction segs generalizing c with
  | nil => rfl
  | cons seg rest ih =>
    rw [tokensOf, tokensOf, List.filter_append, ih, Context.token?_false emitSpace,
      Option.toList_filter]

namespace Scanner

variable {σ : Type} [Source σ]

/-! ## Scanners -/

/-- The tokens of a scanner are those of the segments of the input that it holds. -/
theorem Holds.tokens_eq {s : Scanner σ} {d : Draft} {input : List UInt8} (h : s.Holds d input) :
    s.tokens d = tokensOf s.emitSpace s.context (segments input) := by
  -- A call that gives another token than the end leaves a smaller window.
  fun_induction readings s d generalizing input with
  | case1 s d r =>
    rename_i hkind
    obtain ⟨bytes, hpath, -, hnext⟩ := (next_scans s d).agrees
    obtain ⟨rest, rfl, hrest⟩ := h.next hpath
    rw [tokens_of_nothing hkind]
    rcases tokensOf_eq_of_nextToken (hnext rest hrest.ahead) with ⟨-, hnil⟩ | ⟨hne, -⟩
    · exact hnil.symm
    · exact absurd hkind hne
  | case2 s d r hkind hafter more =>
    rename_i ih
    obtain ⟨bytes, hpath, hemit, hnext⟩ := (next_scans s d).agrees
    obtain ⟨rest, rfl, hrest⟩ := h.next hpath
    rw [tokens_of_ne_nothing hkind, ih hrest, hemit]
    rcases tokensOf_eq_of_nextToken (hnext rest hrest.ahead) with ⟨hnothing, -⟩ | ⟨-, hcons⟩
    · exact absurd hnothing hkind
    · exact hcons.symm

/-- One call reads whole segments, and the segments of the rest are those of the rest alone. -/
theorem Scans.segments_eq {s s' : Scanner σ} {t : Token} (h : s.Scans t s') :
    ∃ segs : List Segment, s.window.Path (segs.flatMap Segment.spelling) s'.window ∧
      ∀ rest, s'.window.Ahead rest →
        segments (segs.flatMap Segment.spelling ++ rest) = segs ++ segments rest := by
  induction h with
  | @skip s s₁ s' seg t hreads _ _ ih =>
    obtain ⟨segs, hpath, hsegs⟩ := ih
    refine ⟨seg :: segs, hreads.path.trans hpath, ?_⟩
    intro rest hrest
    rw [List.flatMap_cons, List.append_assoc, segments_append (hreads.first _ (hpath.ahead hrest)),
      hsegs rest hrest, List.cons_append]
  | @found s s' seg t hreads _ =>
    have hone : [seg].flatMap Segment.spelling = seg.spelling := List.flatMap_singleton _ _
    refine ⟨[seg], ?_, ?_⟩
    · rw [hone]
      exact hreads.path
    · intro rest hrest
      rw [hone, segments_append (hreads.first rest hrest)]
      rfl
  | ended hpass _ => exact ⟨[], hpass.path, fun rest _ => rfl⟩

/-- The segments of the input held, written out one after the other, are this input. -/
theorem Holds.flatMap_spelling {s : Scanner σ} {d : Draft} {input : List UInt8}
    (h : s.Holds d input) : (segments input).flatMap Segment.spelling = input := by
  obtain ⟨n, hend, hinput⟩ := h
  induction n generalizing s d input with
  | zero =>
    have hnil : input = [] := hinput.bytes_unique (.stay s.window)
    rw [hnil, segments]
    rfl
  | succ n ih =>
    obtain ⟨segs, hpath, hsegs⟩ := (next_scans s d).segments_eq
    obtain ⟨rest, hrest⟩ := after_path n (Scanner.next s d).1 (Scanner.next s d).2
    have hholds : (Scanner.next s d).1.Holds (Scanner.next s d).2 rest := ⟨n, hend, hrest⟩
    have hsplit : input = segs.flatMap Segment.spelling ++ rest :=
      hinput.bytes_unique (hpath.trans hrest)
    rw [hsplit, hsegs rest hholds.ahead, List.flatMap_append, ih hend hrest]

end Scanner

/-- The segments of an input, written out one after the other, are the input. -/
theorem flatMap_spelling_segments (input : List UInt8) :
    (segments input).flatMap Segment.spelling = input :=
  ((Memory.delivers ⟨input⟩).holds Settings.default Draft.empty).flatMap_spelling

/-! ## Sessions and lexers -/

/-- Draining a session gives the tokens of its scanner. -/
theorem Session.drain_eq_tokens {s : Session} (h : s.finished = false) :
    s.drain.1 = s.scanner.tokens s.draft := by
  fun_induction drain s with
  | case1 s s' hnext =>
    by_cases hkind : (s.scanner.next s.draft).2.kind = .nothing
    · rw [Scanner.tokens_of_nothing hkind]
    · rw [next_of_ne_nothing h hkind] at hnext
      cases hnext
  | case2 s t s' hnext _ more ih =>
    by_cases hkind : (s.scanner.next s.draft).2.kind = .nothing
    · rw [next_of_nothing h hkind] at hnext
      cases hnext
    · rw [Scanner.tokens_of_ne_nothing hkind]
      rw [next_of_ne_nothing h hkind] at hnext
      cases hnext
      exact congrArg (List.cons _) (ih h)

namespace Lexer

/-- Draining a lexer bound to memory gives the tokens of the bytes. -/
theorem drain_openMemory_eq (l : Lexer) (bytes : List UInt8) :
    (l.openMemory bytes).drain.1 =
      tokensOf l.settings.emitSpace Context.start (segments bytes) := by
  have hholds := (Feed.memory_delivers ⟨bytes⟩).holds l.settings Draft.empty
  have hdrain : (l.openMemory bytes).drain.1 =
      (Scanner.ofSource l.settings (Feed.memory ⟨bytes⟩)).tokens Draft.empty :=
    Session.drain_eq_tokens rfl
  rw [hdrain, hholds.tokens_eq]
  rfl

/-- Draining a lexer bound to a stream gives the tokens of its scanner. -/
theorem drain_openStream_tokens (l : Lexer) (s : Stream) :
    (l.openStream s).2.drain.1 = (streamScanner l.settings s).tokens Draft.empty :=
  Session.drain_eq_tokens rfl

/-- Draining a lexer bound to a stream that answers honestly gives the tokens of the bytes after the
mark, normalised. -/
theorem drain_openStream_eq {l : Lexer} {s : Stream} (hstart : s.position = 0) (hstep : s.InStep)
    (h : l.ReadsHonestly s) :
    (l.openStream s).2.drain.1 = tokensOf l.settings.emitSpace Context.start
      (segments (normalize (s.data.drop (Bom.classify s.data).length))) := by
  rw [drain_openStream_tokens, (streamScanner_holds hstart hstep h).2.tokens_eq]
  rfl

end Lexer

/-- `tokenize` is a lexer with the default settings, bound to memory and drained. -/
theorem tokenize_eq_drain (input : List UInt8) :
    tokenize input = ((Lexer.ofSettings Settings.default).openMemory input).drain.1 :=
  ((Lexer.ofSettings Settings.default).drain_openMemory_eq input).symm

end Listfile
