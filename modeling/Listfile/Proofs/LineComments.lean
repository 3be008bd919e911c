import Listfile.Proofs.Words

/-!
# Line comments are opaque

A line comment is a hash with the rest of its line. Its body may begin like an opener that is not
finished, or with a quote, and it may be longer than the window. None of it shows: whatever the body
is, what is read behind the comment is what would be read there without it, on the next line
(`readingsN_eq_of_lineComment`). The scanners compared may have different sources, windows and drafts.

* No opener reaches over the end of a line (`openerLevel?_append_newline`), so a body without an
  opener makes the comment the first segment (`segments_lineComment`).
* The segment has no token, and it leads to the start of the next line (`Context.next_lineComment`).
-/

namespace Listfile

/-! ## The segment of a comment -/

/-- There is no newline in an opener. -/
theorem newline_not_mem_opener (level : Nat) : Byte.newline ∉ opener level := by
  intro hmem
  rw [opener, List.mem_cons, List.mem_append, List.mem_singleton] at hmem
  rcases hmem with hbracket | hsign | hbracket
  · exact absurd hbracket (by decide)
  · exact absurd (List.eq_of_mem_replicate hsign) (by decide)
  · exact absurd hbracket (by decide)

/-- No opener reaches over the end of a line. -/
theorem openerLevel?_append_newline {body : List UInt8} (h : ∀ level, ¬ opener level <+: body)
    (rest : List UInt8) : openerLevel? (body ++ Byte.newline :: rest) = none := by
  rw [openerLevel?_eq_none_iff]
  intro level hopener
  by_cases hlength : (opener level).length ≤ body.length
  · exact h level (List.prefix_of_prefix_length_le hopener (List.prefix_append _ _) hlength)
  · -- A longer opener would have the newline in it.
    have hline : body ++ [Byte.newline] <+: body ++ Byte.newline :: rest :=
      (List.prefix_append_right_inj body).2 ⟨rest, rfl⟩
    have hinside : body ++ [Byte.newline] <+: opener level := by
      refine List.prefix_of_prefix_length_le hline hopener ?_
      rw [List.length_append, List.length_singleton]
      omega
    have hmem : Byte.newline ∈ opener level :=
      hinside.mem (List.mem_append_right _ List.mem_cons_self)
    exact newline_not_mem_opener level hmem

/-- A line comment that comes next is the first segment, up to and with its newline. -/
theorem segments_lineComment {body : List UInt8} (h : IsCommentBody body) (rest : List UInt8) :
    segments (Byte.hash :: (body ++ Byte.newline :: rest)) =
      .lineComment body true :: segments rest := by
  have hspelling : (Segment.lineComment body true).spelling ++ rest =
      Byte.hash :: (body ++ Byte.newline :: rest) := by
    simp [Segment.spelling]
  have hcomment : Segment.lineCommentOf (body ++ Byte.newline :: rest) = .lineComment body true := by
    refine @Segment.lineCommentOf_append body rest true ?_ ?_
    · rintro b hb rfl
      exact h.line hb
    · intro hended
      cases hended
  have hfirst : Segment.first? (Byte.hash :: (body ++ Byte.newline :: rest)) =
      some (.lineComment body true) := by
    rw [Segment.first?_hash, openerLevel?_append_newline h.opener]
    exact congrArg some hcomment
  rw [← hspelling] at hfirst ⊢
  exact segments_append hfirst

/-! ## The line after it -/

namespace Context

/-- Behind a line comment the next line starts, and as many parentheses are open as before. -/
theorem next_lineComment (c : Context) {body : List UInt8} (h : Byte.newline ∉ body) :
    c.next (.lineComment body true) = ⟨c.position.nextLine, c.depth⟩ := by
  have hline : Byte.newline ∉ Byte.hash :: body := by
    rw [List.mem_cons, not_or]
    exact ⟨by decide, h⟩
  rw [next, ← Position.advance_concat_newline hline c.position]
  rfl

/-- What is read from a line comment on is what is read behind it. -/
theorem readings_lineComment (c : Context) {body : List UInt8} (h : Byte.newline ∉ body)
    (emitSpace : Bool) (n : Nat) (segs : List Segment) :
    c.readings emitSpace n (.lineComment body true :: segs) =
      (⟨c.position.nextLine, c.depth⟩ : Context).readings emitSpace n segs := by
  rw [← c.next_lineComment h]
  cases n with
  | zero => rfl
  | succ n => rfl

end Context

namespace Scanner

/-! ## Two comments, and none -/

/-- A scanner at the start of a source, in the given context. -/
def ofSourceIn {σ : Type} (c : Context) (settings : Settings) (source : σ) : Scanner σ :=
  { ofSource settings source with position := c.position, depth := c.depth }

/-- It holds the bytes that its source delivers. -/
theorem ofSourceIn_holds {σ : Type} [Source σ] {source : σ} {bytes : List UInt8}
    (h : Source.Delivers source bytes) (c : Context) (settings : Settings) (d : Draft) :
    (ofSourceIn c settings source).Holds d bytes :=
  h.holds_of_window rfl d

/-- A scanner that holds a line comment reads what follows it, from the next line on. -/
theorem Holds.readingsN_of_lineComment {σ : Type} [Source σ] {s : Scanner σ} {d : Draft}
    {body rest : List UInt8} (h : s.Holds d (Byte.hash :: (body ++ Byte.newline :: rest)))
    (hbody : IsCommentBody body) (n : Nat) :
    (readingsN n s d).1 = (⟨s.position.nextLine, s.depth⟩ : Context).readings s.emitSpace n
      (segments rest) := by
  rw [readingsN_eq h, segments_lineComment hbody, Context.readings_lineComment _ hbody.line]
  rfl

/-- Line comments are opaque: two scanners that differ in the body of a line comment which comes next,
in their sources and in how the bytes arrive, read the same from there on, and a third one reads it
too that has no comment and stands on the next line. -/
theorem readingsN_eq_of_lineComment {σ₁ σ₂ σ₃ : Type} [Source σ₁] [Source σ₂] [Source σ₃]
    {s₁ : Scanner σ₁} {s₂ : Scanner σ₂} {s₃ : Scanner σ₃} {d₁ d₂ d₃ : Draft}
    {body₁ body₂ rest : List UInt8} (hbody₁ : IsCommentBody body₁) (hbody₂ : IsCommentBody body₂)
    (h₁ : s₁.Holds d₁ (Byte.hash :: (body₁ ++ Byte.newline :: rest)))
    (h₂ : s₂.Holds d₂ (Byte.hash :: (body₂ ++ Byte.newline :: rest))) (h₃ : s₃.Holds d₃ rest)
    (hposition₂ : s₂.position = s₁.position) (hposition₃ : s₃.position = s₁.position.nextLine)
    (hdepth₂ : s₂.depth = s₁.depth) (hdepth₃ : s₃.depth = s₁.depth)
    (hemit₂ : s₂.emitSpace = s₁.emitSpace) (hemit₃ : s₃.emitSpace = s₁.emitSpace) (n : Nat) :
    (readingsN n s₁ d₁).1 = (readingsN n s₂ d₂).1 ∧
      (readingsN n s₁ d₁).1 = (readingsN n s₃ d₃).1 := by
  rw [h₁.readingsN_of_lineComment hbody₁, h₂.readingsN_of_lineComment hbody₂, readingsN_eq h₃,
    context, hposition₂, hposition₃, hdepth₂, hdepth₃, hemit₂, hemit₃]
  exact ⟨rfl, rfl⟩

/-- Inside a parenthesis and on the last line that is counted: a body that begins like an opener and
is cut there, a body that is a quote, and no comment. -/
theorem readingsN_eq_of_lineComment_unfinished_opener :
    (readingsN 2 (ofSourceIn ⟨⟨Position.limit, 7⟩, 1⟩ ⟨true, 0⟩
        (⟨[[Byte.hash, Byte.bracketLeft], [Byte.equals, 0x61], [Byte.newline, 0x62]]⟩ : Pieces))
        Draft.empty).1 =
      (readingsN 2 (ofSourceIn ⟨⟨Position.limit, 7⟩, 1⟩ ⟨true, 20⟩
        (⟨[Byte.hash, Byte.quote, Byte.newline, 0x62]⟩ : Memory)) Draft.empty).1 ∧
    (readingsN 2 (ofSourceIn ⟨⟨Position.limit, 7⟩, 1⟩ ⟨true, 0⟩
        (⟨[[Byte.hash, Byte.bracketLeft], [Byte.equals, 0x61], [Byte.newline, 0x62]]⟩ : Pieces))
        Draft.empty).1 =
      (readingsN 2 (ofSourceIn ⟨⟨Position.limit, 1⟩, 1⟩ ⟨true, 0⟩ (⟨[0x62]⟩ : Memory))
        Draft.empty).1 := by
  have hopener : IsCommentBody [Byte.bracketLeft, Byte.equals, 0x61] :=
    ⟨by decide, openerLevel?_eq_none_iff.1 (by decide)⟩
  have hquote : IsCommentBody [Byte.quote] := ⟨by decide, openerLevel?_eq_none_iff.1 (by decide)⟩
  have hpieces := ofSourceIn_holds (Pieces.delivers ⟨[[Byte.hash, Byte.bracketLeft],
    [Byte.equals, 0x61], [Byte.newline, 0x62]]⟩) ⟨⟨Position.limit, 7⟩, 1⟩ ⟨true, 0⟩ Draft.empty
  have hmemory := ofSourceIn_holds (Memory.delivers ⟨[Byte.hash, Byte.quote, Byte.newline, 0x62]⟩)
    ⟨⟨Position.limit, 7⟩, 1⟩ ⟨true, 20⟩ Draft.empty
  have hrest := ofSourceIn_holds (Memory.delivers ⟨[0x62]⟩) ⟨⟨Position.limit, 1⟩, 1⟩ ⟨true, 0⟩
    Draft.empty
  exact readingsN_eq_of_lineComment hopener hquote hpieces hmemory hrest rfl (by decide) rfl rfl rfl
    rfl 2

end Scanner

end Listfile
