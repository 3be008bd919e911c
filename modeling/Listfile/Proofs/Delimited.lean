import Listfile.Proofs.Tokens

/-!
# Brackets and quotes end where they should

A bracket or a quoted stretch that comes next is read to its end in one call, however the bytes
arrive and wherever the window cuts them. What its end is can be said of the bytes after the opening
delimiter alone.

* A bracket ends with the first occurrence of the closer of its own level (`FirstOccurrence`). If the
  closer does not occur, the bracket takes all bytes and is not closed (`next_bracket`).
* Bytes in quotes fall into units: a backslash goes with the byte after it, and every other byte
  stands alone (`quotedUnits`). The argument ends with the first unit that is a quote, and its text is
  the units before that without the line continuations. If no unit is a quote, the argument takes all
  bytes and is not closed (`next_quoted`).

Both follow from `Holds.yields`: a call gives the token of the first segment of the input held. It
remains to see that `indexOf?`, `quotedLength?` and `withoutContinuations`, by which the first segment
is given, say the same about occurrences and units.
-/

namespace Listfile

/-! ## Occurrences -/

/-- The text is `body`, then the pattern, then `after`, and the pattern occurs nowhere earlier. -/
structure FirstOccurrence (pattern text body after : List UInt8) : Prop where
  /-- The pattern occurs behind the body. -/
  split : text = body ++ (pattern ++ after)
  /-- Every other occurrence is behind as many bytes at least. -/
  first : ∀ body' after', text = body' ++ (pattern ++ after') → body.length ≤ body'.length

/-- A pattern at the front occurs there first. -/
theorem firstOccurrence_append (pattern after : List UInt8) :
    FirstOccurrence pattern (pattern ++ after) [] after :=
  ⟨rfl, fun _ _ _ => Nat.zero_le _⟩

/-- A byte at which the pattern does not occur comes before the first occurrence. -/
theorem FirstOccurrence.cons {pattern text body after : List UInt8} {b : UInt8}
    (h : FirstOccurrence pattern text body after) (hnot : ¬ pattern <+: b :: text) :
    FirstOccurrence pattern (b :: text) (b :: body) after := by
  refine ⟨by rw [h.split, List.cons_append], ?_⟩
  intro body' after' hsplit
  cases body' with
  | nil => exact absurd ⟨after', hsplit.symm⟩ hnot
  | cons c body' =>
    obtain ⟨-, htext⟩ := List.cons.inj hsplit
    exact Nat.succ_le_succ (h.first body' after' htext)

/-- There is one first occurrence at most. -/
theorem FirstOccurrence.unique {pattern text body body' after after' : List UInt8}
    (h : FirstOccurrence pattern text body after) (h' : FirstOccurrence pattern text body' after') :
    body = body' ∧ after = after' := by
  have hlength : body.length = body'.length :=
    Nat.le_antisymm (h.first body' after' h'.split) (h'.first body after h.split)
  obtain ⟨hbody, hrest⟩ := List.append_inj (h.split.symm.trans h'.split) hlength
  exact ⟨hbody, List.append_cancel_left hrest⟩

/-- The index that is found is that of the first occurrence. -/
theorem firstOccurrence_of_indexOf? {pattern text : List UInt8} {n : Nat}
    (h : indexOf? pattern text = some n) :
    ∃ body after, text.take n = body ∧ FirstOccurrence pattern text body after := by
  induction text generalizing n with
  | nil =>
    rw [indexOf?] at h
    split at h
    · rename_i hempty
      cases h
      rw [List.isEmpty_iff.1 hempty]
      exact ⟨[], [], rfl, firstOccurrence_append [] []⟩
    · cases h
  | cons b text ih =>
    rw [indexOf?] at h
    split at h
    · rename_i hpre
      cases h
      obtain ⟨after, hafter⟩ := List.isPrefixOf_iff_prefix.1 hpre
      rw [← hafter]
      exact ⟨[], after, rfl, firstOccurrence_append pattern after⟩
    · rename_i hpre
      rw [List.isPrefixOf_iff_prefix] at hpre
      obtain ⟨m, hm, rfl⟩ := Option.map_eq_some_iff.1 h
      obtain ⟨body, after, hbody, hoccurs⟩ := ih hm
      exact ⟨b :: body, after, congrArg (b :: ·) hbody, hoccurs.cons hpre⟩

/-- If no index is found, the pattern does not occur. -/
theorem not_infix_of_indexOf? {pattern text : List UInt8} (h : indexOf? pattern text = none) :
    ¬ pattern <:+: text := by
  induction text with
  | nil =>
    rw [List.infix_nil]
    rintro rfl
    cases h
  | cons b text ih =>
    rw [indexOf?] at h
    split at h
    · cases h
    · rename_i hpre
      rw [List.isPrefixOf_iff_prefix] at hpre
      rw [List.infix_cons_iff]
      rintro (hfront | hlater)
      · exact hpre hfront
      · exact ih (Option.map_eq_none_iff.1 h) hlater

-- Overlapping candidates: the first `]` is text, because the closer begins with the second one.
example : indexOf? (closer 1) [Byte.bracketRight, Byte.bracketRight, Byte.equals,
    Byte.bracketRight] = some 1 := by decide

-- The closer ends before a further `]`, and a closer of another level is text.
example : indexOf? (closer 1) [Byte.bracketRight, Byte.bracketRight, 0x61, Byte.bracketRight,
    Byte.equals, Byte.bracketRight, Byte.bracketRight] = some 3 := by decide

/-! ## Units -/

/-- The units of bytes in quotes, from left to right: a backslash together with the byte after it, a
backslash after which nothing comes, or any other byte alone. -/
def quotedUnits : List UInt8 → List (List UInt8)
  | [] => []
  | b :: rest =>
    if b = Byte.backslash then
      match rest with
      | [] => [[b]]
      | c :: rest => [b, c] :: quotedUnits rest
    else [b] :: quotedUnits rest

/-- The text of units: those that are line continuations are left out. -/
def textOfUnits (units : List (List UInt8)) : List UInt8 :=
  (units.filter (· ≠ [Byte.backslash, Byte.newline])).flatten

@[simp] theorem textOfUnits_nil : textOfUnits [] = [] := rfl

theorem textOfUnits_cons (unit : List UInt8) (units : List (List UInt8)) :
    textOfUnits (unit :: units) =
      (if unit = [Byte.backslash, Byte.newline] then [] else unit) ++ textOfUnits units := by
  by_cases hunit : unit = [Byte.backslash, Byte.newline] <;> simp [textOfUnits, hunit]

/-- The units of bytes, one after the other, are these bytes. -/
theorem flatten_quotedUnits (bytes : List UInt8) : (quotedUnits bytes).flatten = bytes := by
  fun_induction quotedUnits bytes with
  | case1 => rfl
  | case2 => rfl
  | case3 c rest ih => rw [List.flatten_cons, ih]; rfl
  | case4 b rest _ ih => rw [List.flatten_cons, ih]; rfl

/-- What is left without the line continuations is the text of the units. -/
theorem withoutContinuations_eq_textOfUnits (bytes : List UInt8) :
    withoutContinuations bytes = textOfUnits (quotedUnits bytes) := by
  fun_induction quotedUnits bytes with
  | case1 => rfl
  | case2 => rfl
  | case3 c rest ih =>
    rw [withoutContinuations_pair, textOfUnits_cons, ih]
    simp only [List.cons.injEq, true_and, and_true]
  | case4 b rest hb ih =>
    rw [withoutContinuations.eq_def, textOfUnits_cons]
    simp only [if_neg hb, ih, List.cons.injEq, reduceCtorEq, and_false, if_false,
      List.singleton_append]

/-- Units with another one behind them are the units of their own bytes. Only a backslash at the very
end could be taken for a part of something else. -/
theorem quotedUnits_flatten {bytes : List UInt8} {before after : List (List UInt8)}
    (h : quotedUnits bytes = before ++ after) (hafter : after ≠ []) :
    quotedUnits before.flatten = before := by
  fun_induction quotedUnits bytes generalizing before with
  | case1 => exact absurd (List.append_eq_nil_iff.1 h.symm).2 hafter
  | case2 =>
    cases before with
    | nil => rfl
    | cons unit before =>
      obtain ⟨-, hnil⟩ := List.cons.inj h
      exact absurd (List.append_eq_nil_iff.1 hnil.symm).2 hafter
  | case3 c rest ih =>
    cases before with
    | nil => rfl
    | cons unit before =>
      obtain ⟨rfl, hrest⟩ := List.cons.inj h
      rw [List.flatten_cons, List.cons_append, quotedUnits.eq_def]
      simp only [if_pos, List.cons_append, List.nil_append, ih hrest]
  | case4 b rest hb ih =>
    cases before with
    | nil => rfl
    | cons unit before =>
      obtain ⟨rfl, hrest⟩ := List.cons.inj h
      rw [List.flatten_cons, List.cons_append, quotedUnits.eq_def]
      simp only [if_neg hb, List.nil_append, ih hrest]

/-- The closing quote is the first unit that is a quote. -/
theorem quotedLength?_of_units {bytes : List UInt8} {before after : List (List UInt8)}
    (h : quotedUnits bytes = before ++ [Byte.quote] :: after) (hbefore : [Byte.quote] ∉ before) :
    quotedLength? bytes = some before.flatten.length := by
  fun_induction quotedUnits bytes generalizing before with
  | case1 => exact absurd (List.append_eq_nil_iff.1 h.symm).2 (List.cons_ne_nil _ _)
  | case2 =>
    cases before with
    | nil => exact absurd (List.head_eq_of_cons_eq (List.cons.inj h).1) (by decide)
    | cons unit before =>
      obtain ⟨-, hnil⟩ := List.cons.inj h
      exact absurd (List.append_eq_nil_iff.1 hnil.symm).2 (List.cons_ne_nil _ _)
  | case3 c rest ih =>
    cases before with
    | nil => cases (List.cons.inj (List.cons.inj h).1).2
    | cons unit before =>
      obtain ⟨rfl, hrest⟩ := List.cons.inj h
      rw [quotedLength?_pair, ih hrest fun hmem => hbefore (List.mem_cons_of_mem _ hmem)]
      rfl
  | case4 b rest hb ih =>
    cases before with
    | nil =>
      obtain rfl : b = Byte.quote := List.head_eq_of_cons_eq (List.cons.inj h).1
      exact quotedLength?_quote rest
    | cons unit before =>
      obtain ⟨rfl, hrest⟩ := List.cons.inj h
      have hquote : b ≠ Byte.quote := by
        rintro rfl
        exact hbefore List.mem_cons_self
      rw [quotedLength?.eq_def]
      simp only [if_neg hquote, if_neg hb]
      rw [ih hrest fun hmem => hbefore (List.mem_cons_of_mem _ hmem)]
      rfl

/-- If no unit is a quote, nothing closes. -/
theorem quotedLength?_eq_none {bytes : List UInt8} (h : [Byte.quote] ∉ quotedUnits bytes) :
    quotedLength? bytes = none := by
  fun_induction quotedUnits bytes with
  | case1 => rfl
  | case2 => rfl
  | case3 c rest ih =>
    rw [quotedLength?_pair, ih fun hmem => h (List.mem_cons_of_mem _ hmem)]
    rfl
  | case4 b rest hb ih =>
    have hquote : b ≠ Byte.quote := by
      rintro rfl
      exact h List.mem_cons_self
    rw [quotedLength?.eq_def]
    simp only [if_neg hquote, if_neg hb]
    rw [ih fun hmem => h (List.mem_cons_of_mem _ hmem)]
    rfl

-- Three backslashes before a quote pair up with each other and with the quote, so it closes nothing.
example : quotedUnits [Byte.backslash, Byte.backslash, Byte.backslash, Byte.quote, Byte.quote] =
    [[Byte.backslash, Byte.backslash], [Byte.backslash, Byte.quote], [Byte.quote]] := by decide

namespace Scanner

variable {σ : Type} [Source σ]

/-! ## One call -/

/-- A call on the scanner `s` and the draft `d` gives a token that starts with the next byte, has the
given kind and text, and takes exactly `bytes`, so that `rest` is still to be read. -/
structure Yields (s : Scanner σ) (d : Draft) (kind : Kind) (text bytes rest : List UInt8) :
    Prop where
  /-- The token has this kind and this text, and it starts where the scanner stands. -/
  token : (next s d).2.token = ⟨kind, text, s.position⟩
  /-- Exactly these bytes are consumed. -/
  path : s.window.Path bytes (next s d).1.window
  /-- The scanner holds the rest. -/
  holds : (next s d).1.Holds (next s d).2 rest

/-- A call gives the token of the first segment of the input held, unless that is a blank run or has
no token. -/
theorem Holds.yields {s : Scanner σ} {d : Draft} {seg : Segment} {rest : List UInt8} {kind : Kind}
    (h : s.Holds d (seg.spelling ++ rest))
    (hfirst : Segment.first? (seg.spelling ++ rest) = some seg)
    (hkind : seg.kind? s.depth = some kind) (hspace : kind ≠ .space) :
    s.Yields d kind seg.text seg.spelling rest := by
  obtain ⟨bytes, hpath, -, hnext⟩ := (next_scans s d).agrees
  obtain ⟨rest', hinput, hrest⟩ := h.next hpath
  have hcall := hnext rest' hrest.ahead
  have htoken : s.context.token? s.emitSpace seg = some ⟨kind, seg.text, s.position⟩ :=
    Context.token?_of_ne_space hkind hspace
  rw [← hinput, segments_append hfirst, Context.nextToken, htoken] at hcall
  obtain ⟨hfound, hleft⟩ := Prod.mk.inj hcall
  -- What is left of the input is determined by its segments.
  obtain rfl : rest = rest' := by
    have hsame := congrArg (List.flatMap Segment.spelling) (Prod.mk.inj hleft).2
    rwa [flatMap_spelling_segments, flatMap_spelling_segments] at hsame
  obtain rfl : seg.spelling = bytes := List.append_cancel_right hinput
  exact ⟨hfound.symm, hpath, hrest⟩

/-- Brackets are exact: where the opener of some level comes next, perhaps after a hash, the token has
the text up to the first closer of that level, and all bytes through this closer are consumed. If the
closer does not occur, the token has all the text there is and is not closed. -/
theorem next_bracket (comment : Bool) (level : Nat) {w : List UInt8} {s : Scanner σ} {d : Draft}
    (h : s.Holds d ((if comment then [Byte.hash] else []) ++ (opener level ++ w))) :
    (closer level <:+: w → ∃ body after, FirstOccurrence (closer level) w body after ∧
      s.Yields d (if comment then .bracketComment else .bracket) body
        ((if comment then [Byte.hash] else []) ++ (opener level ++ (body ++ closer level))) after) ∧
    (¬ closer level <:+: w →
      s.Yields d .badBracket w ((if comment then [Byte.hash] else []) ++ (opener level ++ w)) []) := by
  have hfirst := Segment.first?_opener comment level w
  rw [Segment.bracketOf] at hfirst
  cases hindex : indexOf? (closer level) w with
  | none =>
    have hnot := not_infix_of_indexOf? hindex
    have hspelling : (Segment.bracket comment level w false).spelling ++ [] =
        (if comment then [Byte.hash] else []) ++ (opener level ++ w) := by
      simp [Segment.spelling]
    rw [hindex, ← hspelling] at hfirst
    rw [← hspelling] at h ⊢
    rw [List.append_nil]
    exact ⟨fun hoccurs => absurd hoccurs hnot, fun _ => h.yields hfirst rfl (by decide)⟩
  | some n =>
    obtain ⟨body, after, hbody, hoccurs⟩ := firstOccurrence_of_indexOf? hindex
    have hspelling : (Segment.bracket comment level body true).spelling =
        (if comment then [Byte.hash] else []) ++ (opener level ++ (body ++ closer level)) := by
      simp [Segment.spelling]
    have hinput : (Segment.bracket comment level body true).spelling ++ after =
        (if comment then [Byte.hash] else []) ++ (opener level ++ w) := by
      rw [hspelling, hoccurs.split]
      simp only [List.append_assoc]
    rw [hindex, ← hinput] at hfirst
    simp only [hbody] at hfirst
    rw [← hinput] at h
    refine ⟨fun _ => ⟨body, after, hoccurs, ?_⟩, fun hnot => absurd ⟨body, after, ?_⟩ hnot⟩
    · rw [← hspelling]
      exact h.yields hfirst rfl (by cases comment <;> decide)
    · rw [List.append_assoc]
      exact hoccurs.split.symm

/-- A bracket comment of level one whose closer is cut twice on its way and comes right behind a
closing bracket, which is its text. -/
theorem next_bracket_cut_closer :
    (ofSource ⟨false, 0⟩ (⟨[[Byte.hash, Byte.bracketLeft], [Byte.equals, Byte.bracketLeft,
        Byte.bracketRight, Byte.bracketRight], [Byte.equals], [Byte.bracketRight, 0x61]]⟩ :
        Pieces)).Yields Draft.empty .bracketComment [Byte.bracketRight]
      (Byte.hash :: (opener 1 ++ ([Byte.bracketRight] ++ closer 1))) [0x61] := by
  have hholds := (Pieces.delivers ⟨[[Byte.hash, Byte.bracketLeft], [Byte.equals, Byte.bracketLeft,
    Byte.bracketRight, Byte.bracketRight], [Byte.equals], [Byte.bracketRight, 0x61]]⟩).holds
    ⟨false, 0⟩ Draft.empty
  have hfirst : FirstOccurrence (closer 1) [Byte.bracketRight, Byte.bracketRight, Byte.equals,
      Byte.bracketRight, 0x61] [Byte.bracketRight] [0x61] :=
    (firstOccurrence_append (closer 1) [0x61]).cons (by decide)
  obtain ⟨body, after, hoccurs, hyields⟩ := (next_bracket true 1 hholds).1 (by decide)
  obtain ⟨rfl, rfl⟩ := hoccurs.unique hfirst
  exact hyields

/-- Quoted arguments are exact: where a quote comes next, the token has the text of the units before
the first unit that is a quote, and all bytes through this unit are consumed. If no unit is a quote,
the token has the text of all units and is not closed. -/
theorem next_quoted {w : List UInt8} {s : Scanner σ} {d : Draft} (h : s.Holds d (Byte.quote :: w)) :
    (∀ before after, quotedUnits w = before ++ [Byte.quote] :: after → [Byte.quote] ∉ before →
      s.Yields d .quoted (textOfUnits before) (Byte.quote :: (before.flatten ++ [Byte.quote]))
        after.flatten) ∧
    ([Byte.quote] ∉ quotedUnits w →
      s.Yields d .badString (textOfUnits (quotedUnits w)) (Byte.quote :: w) []) := by
  have hfirst := Segment.first?_quote w
  rw [Segment.quotedOf] at hfirst
  constructor
  · intro before after hunits hbefore
    have hw : w = before.flatten ++ (Byte.quote :: after.flatten) := by
      rw [← flatten_quotedUnits w, hunits, List.flatten_append, List.flatten_cons]
      rfl
    have htake : w.take before.flatten.length = before.flatten := by
      rw [hw]
      exact List.take_left
    have hinput : (Segment.quoted before.flatten true).spelling ++ after.flatten =
        Byte.quote :: w := by
      rw [hw]
      simp [Segment.spelling]
    have htext : textOfUnits before = (Segment.quoted before.flatten true).text := by
      rw [Segment.text, withoutContinuations_eq_textOfUnits,
        quotedUnits_flatten hunits (List.cons_ne_nil _ _)]
    rw [quotedLength?_of_units hunits hbefore, ← hinput] at hfirst
    simp only [htake] at hfirst
    rw [← hinput] at h
    rw [htext]
    exact h.yields hfirst rfl (by decide)
  · intro hnone
    have hinput : (Segment.quoted w false).spelling ++ [] = Byte.quote :: w := by
      simp [Segment.spelling]
    rw [quotedLength?_eq_none hnone, ← hinput] at hfirst
    rw [← hinput] at h ⊢
    rw [← withoutContinuations_eq_textOfUnits, List.append_nil]
    exact h.yields hfirst rfl (by decide)

/-- A line continuation and an escaped quote before the closing one, each cut behind its backslash. -/
theorem next_quoted_cut_pairs :
    (ofSource ⟨true, 20⟩ (⟨[[Byte.quote, Byte.backslash], [Byte.newline, Byte.backslash],
        [Byte.quote, Byte.quote]]⟩ : Pieces)).Yields Draft.empty .quoted
      [Byte.backslash, Byte.quote]
      [Byte.quote, Byte.backslash, Byte.newline, Byte.backslash, Byte.quote, Byte.quote] [] := by
  have hholds := (Pieces.delivers ⟨[[Byte.quote, Byte.backslash], [Byte.newline, Byte.backslash],
    [Byte.quote, Byte.quote]]⟩).holds ⟨true, 20⟩ Draft.empty
  exact (next_quoted hholds).1 [[Byte.backslash, Byte.newline], [Byte.backslash, Byte.quote]] []
    (by decide) (by decide)

end Scanner

end Listfile
