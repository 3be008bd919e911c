import Listfile.Proofs.Scanner.Enter
import Listfile.Proofs.Scanner.Machine

/-!
# Each round of scanning reads one segment

What `Scanner.enter` leaves to others is read to its end by the functions for lines, quotes and
brackets. Together they read the segment that comes next.

* `scanRound_ok`: a round reads a segment, and finishes with its token if it has one; or it has come
  to the end of the input.
* `Scans` puts the rounds of one call together: segments without a token are passed over, until one
  has a token or the input ends. `next_scans` says that this is what `next` does, for every source
  and every draft, without running into a violation.
-/

namespace Listfile.Scanner

variable {σ : Type} [Source σ]

/-! ## From an entry to the end of the segment -/

/-- A quoted argument whose quote has been passed is read to its end. -/
theorem readsToken_of_quoted {s s₁ s' : Scanner σ} {d d' : Draft} (hpass : s.Passes [Byte.quote] s₁)
    (htext : d.text = []) (hposition : d.position = s.position) (h : QuotedRead s₁ d s' d') :
    s.ReadsToken d'.token s' := by
  obtain ⟨body, closed, hmore, htoken, hclose⟩ := h
  refine ⟨.quoted body closed, Passes.reads (hpass.trans hmore) ?_ ?_, ?_⟩
  · cases closed <;> rfl
  · intro rest hrest
    obtain ⟨hlength, hend⟩ := hclose rest hrest
    have hspelling : (Segment.quoted body closed).spelling ++ rest =
        Byte.quote :: (body ++ (closingQuote closed ++ rest)) := by
      rw [← List.append_assoc]
      rfl
    rw [hspelling, Segment.first?_quote, Segment.quotedOf_append hlength hend]
  · rw [Context.token?_of_ne_space rfl (by cases closed <;> decide), htoken, htext, hposition]
    rfl

/-- A bracket whose opener has been passed is read to its end. -/
theorem readsToken_of_bracket {s s₁ s' : Scanner σ} {d d' : Draft} (comment : Bool) {level : Nat}
    (hopen : s.Passes (openingHash comment ++ opener level) s₁) (htext : d.text = [])
    (hposition : d.position = s.position)
    (h : BracketRead level (if comment then .bracketComment else .bracket) s₁ d s' d') :
    s.ReadsToken d'.token s' := by
  obtain ⟨body, closed, hmore, htoken, hclose⟩ := h
  have hpass := hopen.trans hmore
  rw [← List.append_assoc] at hpass
  refine ⟨.bracket comment level body closed, Passes.reads hpass ?_ ?_, ?_⟩
  · cases closed <;> cases comment <;> rfl
  · intro rest hrest
    obtain ⟨hindex, hend⟩ := hclose rest hrest
    have hspelling : (Segment.bracket comment level body closed).spelling ++ rest =
        (if comment then [Byte.hash] else []) ++
          (opener level ++ (body ++ (closingBracket level closed ++ rest))) := by
      simp only [Segment.spelling, closingBracket, List.append_assoc]
    rw [hspelling, Segment.first?_opener, Segment.bracketOf_append hindex hend]
  · rw [Context.token?_of_ne_space rfl (by cases closed <;> cases comment <;> decide), htoken, htext,
      hposition]
    rfl

/-- A hash and the rest of its line are read as a line comment, if the bytes passed already are part
of the line and no opener stands there. -/
theorem reads_of_line {s s₁ s' : Scanner σ} {d d' : Draft} {bytes : List UInt8}
    (hpass : s.Passes (Byte.hash :: bytes) s₁) (hline : Byte.newline ∉ bytes)
    (hopener : ∀ rest, s₁.window.Ahead rest → openerLevel? (bytes ++ rest) = none)
    (h : LineRead s₁ d s' d') : ∃ body ended, s.Reads (.lineComment body ended) s' := by
  obtain ⟨body, ended, hmore, hbody, hend⟩ := h
  have hspelling : (Segment.lineComment (bytes ++ body) ended).spelling =
      Byte.hash :: bytes ++ (body ++ closingNewline ended) := by
    simp only [Segment.spelling, closingNewline, List.append_assoc, List.cons_append]
  refine ⟨bytes ++ body, ended, Passes.reads ?_ rfl fun rest hrest => ?_⟩
  · rw [hspelling]
    exact hpass.trans hmore
  · have hwhole : ∀ b ∈ bytes ++ body, b ≠ Byte.newline := by
      rintro b hb rfl
      rcases List.mem_append.1 hb with hb | hb
      · exact hline hb
      · exact hbody hb
    have hahead := hopener _ (hmore.ahead hrest)
    rw [← List.append_assoc, ← List.append_assoc, List.append_assoc (bytes ++ body)] at hahead
    rw [hspelling, List.append_assoc, List.cons_append, Segment.first?_hash, ← List.append_assoc,
      ← List.append_assoc, List.append_assoc (bytes ++ body), hahead]
    exact congrArg some (Segment.lineCommentOf_append hwhole (hend rest hrest))

/-! ## Rounds -/

/-- The outcome of a round: a segment without a token has been read, or one whose token the draft
holds, or the input has ended. -/
inductive RoundReads (s : Scanner σ) : Round (Scanner σ) Draft → Prop where
  /-- The segment read has no token. -/
  | skipped {s' : Scanner σ} {d' : Draft} {seg : Segment} (reads : s.Reads seg s')
      (silent : s.context.token? s.emitSpace seg = none) : RoundReads s (.again s' d')
  /-- The segment read has a token, which is the draft's. -/
  | found {s' : Scanner σ} {d' : Draft} (reads : s.ReadsToken d'.token s') :
      RoundReads s (.done s' d')
  /-- Nothing is left to be read. -/
  | ended {s' : Scanner σ} {d' : Draft} (pass : s.Passes [] s') (atEnd : s'.window.AtEnd)
      (token : d'.token = ⟨.nothing, [], s.position⟩) : RoundReads s (.done s' d')

/-- A round reads one segment, or finds that nothing is left. -/
theorem scanRound_ok (s : Scanner σ) (d : Draft) :
    ∃ r, scanRound s d = .ok r ∧ RoundReads s r := by
  obtain ⟨e, henter, hentry⟩ := enter_ok s d
  simp only [scanRound, henter, bind, Except.bind]
  cases hentry with
  | token hreads => exact ⟨_, rfl, .found hreads⟩
  | ended hpass hend htoken => exact ⟨_, rfl, .ended hpass hend htoken⟩
  | passed hreads hsilent => exact ⟨_, rfl, .skipped hreads hsilent⟩
  | @lineComment s₁ d₁ bytes hpass hline hopener =>
    obtain ⟨s', d', hok, hread⟩ := restOfLine_ok s₁ d₁
    obtain ⟨body, ended, hreads⟩ := reads_of_line hpass hline hopener hread
    simp only [hok]
    exact ⟨_, rfl, .skipped hreads rfl⟩
  | @quoted s₁ d₁ hpass htext hposition =>
    obtain ⟨s', d', hok, hread⟩ := quoted_ok s₁ d₁
    simp only [hok]
    exact ⟨_, rfl, .found (readsToken_of_quoted hpass htext hposition hread)⟩
  | @bracket comment level s₁ d₁ hpass htext hposition =>
    obtain ⟨s', d', closed, hok, hread⟩ := bracketBody_ok level s₁ d₁
    simp only [hok]
    cases closed with
    | true =>
      obtain ⟨d₂, hclose, hbracket⟩ :=
        closeBracket_ok (if comment then .bracketComment else .bracket) hread
      simp only [if_true, hclose]
      exact ⟨_, rfl, .found (readsToken_of_bracket comment hpass htext hposition hbracket)⟩
    | false =>
      exact ⟨_, rfl,
        .found (readsToken_of_bracket comment hpass htext hposition (hread.bracketRead _))⟩

/-! ## One call -/

/-- What one call does: it passes over segments without a token and gives the token of the next
segment, or the end of the input. -/
inductive Scans : Scanner σ → Token → Scanner σ → Prop where
  /-- A segment without a token is passed over. -/
  | skip {s s₁ s' : Scanner σ} {seg : Segment} {t : Token} (reads : s.Reads seg s₁)
      (silent : s.context.token? s.emitSpace seg = none) (scans : Scans s₁ t s') : Scans s t s'
  /-- A segment has a token. -/
  | found {s s' : Scanner σ} {seg : Segment} {t : Token} (reads : s.Reads seg s')
      (token : s.context.token? s.emitSpace seg = some t) : Scans s t s'
  /-- Nothing is left to be read. -/
  | ended {s s' : Scanner σ} (pass : s.Passes [] s') (atEnd : s'.window.AtEnd) :
      Scans s ⟨.nothing, [], s.position⟩ s'

/-- Reading a segment consumes bytes. -/
theorem Reads.taken_lt {s s' : Scanner σ} {seg : Segment} (h : s.Reads seg s') :
    s.window.taken < s'.window.taken := by
  have hne := Segment.spelling_ne_nil_of_first? (h.first _ s'.window.ahead_unread)
  have hpos := List.length_pos_iff.2 hne
  rw [h.path.taken]
  omega

/-- Rounds come to a token, whatever the source does and whatever the draft holds, and there is at most
one more of them than bytes are consumed. -/
theorem exists_finishes (s : Scanner σ) (d : Draft) :
    ∃ s' d', s.Scans d'.token s' ∧ ∃ rounds, Finishes scanRound rounds s d s' d' ∧
      s.window.taken + rounds ≤ s'.window.taken + 1 := by
  suffices hstep : ∀ (s : Scanner σ) (d : Draft), ∃ r, scanRound s d = .ok r ∧
      r.HandsOn (fun s d s' d' => Scans s (Draft.token d') s' ∧
        ∃ rounds, Finishes scanRound rounds s d s' d' ∧
          s.window.taken + rounds ≤ s'.window.taken + 1) s d by
    obtain ⟨s', d', -, hscans⟩ := repeatUntilDone_rule scanRound_progresses hstep s d
    exact ⟨s', d', hscans⟩
  intro s d
  obtain ⟨r, hok, hround⟩ := scanRound_ok s d
  refine ⟨r, hok, ?_⟩
  cases hround with
  | skipped hreads hsilent =>
    rintro s' d' ⟨hscans, rounds, hlater, hle⟩
    have hlt := hreads.taken_lt
    exact ⟨.skip hreads hsilent hscans, rounds + 1, .again hok hlater, by omega⟩
  | found hreads =>
    obtain ⟨seg, hseg, htoken⟩ := hreads
    have hlt := hseg.taken_lt
    exact ⟨.found hseg htoken, 1, .done hok, by omega⟩
  | ended hpass hend htoken =>
    have hscans : s.Scans ⟨.nothing, [], s.position⟩ _ := .ended hpass hend
    have htaken := hpass.path.taken
    rw [← htoken] at hscans
    exact ⟨hscans, 1, .done hok, by omega⟩

/-- A call ends after at most one round more than it consumes bytes. -/
theorem next_finishes (s : Scanner σ) (d : Draft) :
    ∃ rounds, Finishes scanRound rounds s d (next s d).1 (next s d).2 ∧
      s.window.taken + rounds ≤ (next s d).1.window.taken + 1 := by
  obtain ⟨s', d', -, rounds, hfinishes, hle⟩ := exists_finishes s d
  rw [next, hfinishes.scan_eq]
  exact ⟨rounds, hfinishes, hle⟩

/-- Reading a token succeeds, whatever the source does and whatever the draft holds. -/
theorem scan_eq_next (s : Scanner σ) (d : Draft) : scan s d = .ok (next s d) := by
  obtain ⟨rounds, hfinishes, -⟩ := next_finishes s d
  exact hfinishes.scan_eq

/-- `next` reads one token. -/
theorem next_scans (s : Scanner σ) (d : Draft) :
    s.Scans (next s d).2.token (next s d).1 := by
  obtain ⟨s', d', hscans, rounds, hfinishes, -⟩ := exists_finishes s d
  rw [next, hfinishes.scan_eq]
  exact hscans

end Listfile.Scanner
