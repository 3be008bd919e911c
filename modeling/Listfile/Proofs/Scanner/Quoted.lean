import Listfile.Proofs.Scanner
import Listfile.Scanner.Quoted
import Listfile.Segment

/-!
# Quoted arguments are scanned up to their closing quote

`quotedLength?` finds the closing quote in a whole input and `withoutContinuations` drops the line
continuations from a whole body. `Scanner.quoted` does both in rounds: a run of plain bytes, and
then a newline, or a backslash with the byte after it, or what ends the argument. They agree whatever
lies ahead where the scanner stops (`quoted_ok`). The position keeps pace: it goes right over plain
bytes and pairs, and to the next line at a newline, be it text or dropped with a backslash.

Each law of the two functions below says what one stretch of a round adds to the result for the rest
of the input. A backslash at the very end of the input is the one stretch that adds itself only
because nothing follows, which is why `QuotedRead.of_stretch` asks for the two equations only where
the window allows the rest.
-/

namespace Listfile

/-! ## The closing quote and the text -/

/-- What stops plain bytes is the quote, a newline or a backslash. -/
theorem Byte.eq_of_not_isPlainInQuotes {b : UInt8} (h : Scanner.isPlainInQuotes b = false) :
    b = Byte.quote ∨ b = Byte.newline ∨ b = Byte.backslash := by
  simp only [Scanner.isPlainInQuotes, Bool.and_eq_false_iff, bne_eq_false_iff_eq] at h
  rcases h with (hquote | hback) | hnewline
  · exact .inl hquote
  · exact .inr (.inr hback)
  · exact .inr (.inl hnewline)

/-- Text without a quote or a backslash puts the closing quote further off by its length. -/
theorem quotedLength?_append_text {run : List UInt8} (hquote : Byte.quote ∉ run)
    (hback : Byte.backslash ∉ run) (rest : List UInt8) :
    quotedLength? (run ++ rest) = (quotedLength? rest).map (· + run.length) := by
  induction run with
  | nil => simp
  | cons b run ih =>
    rw [List.mem_cons, not_or] at hquote hback
    rw [List.cons_append, quotedLength?.eq_def]
    simp only [if_neg (Ne.symm hquote.1), if_neg (Ne.symm hback.1)]
    rw [ih hquote.2 hback.2, Option.map_map, List.length_cons]
    congr 1

/-- A quote at the front closes at once. -/
theorem quotedLength?_quote (rest : List UInt8) :
    quotedLength? (Byte.quote :: rest) = some 0 := by
  rw [quotedLength?.eq_def]
  simp only [if_pos]

/-- A backslash and the byte after it put the closing quote further off by two. -/
theorem quotedLength?_pair (c : UInt8) (rest : List UInt8) :
    quotedLength? (Byte.backslash :: c :: rest) = (quotedLength? rest).map (· + 2) := by
  rw [quotedLength?.eq_def]
  simp only [if_neg (show Byte.backslash ≠ Byte.quote by decide), if_pos]

/-- Text without a backslash is kept. -/
theorem withoutContinuations_append_text {run : List UInt8} (hback : Byte.backslash ∉ run)
    (rest : List UInt8) : withoutContinuations (run ++ rest) = run ++ withoutContinuations rest := by
  induction run with
  | nil => rfl
  | cons b run ih =>
    rw [List.mem_cons, not_or] at hback
    rw [List.cons_append, withoutContinuations.eq_def]
    simp only [if_neg (Ne.symm hback.1)]
    rw [ih hback.2, List.cons_append]

/-- A backslash and the byte after it are kept, unless that byte is a newline. -/
theorem withoutContinuations_pair (c : UInt8) (rest : List UInt8) :
    withoutContinuations (Byte.backslash :: c :: rest) =
      (if c = Byte.newline then [] else [Byte.backslash, c]) ++ withoutContinuations rest := by
  rw [withoutContinuations.eq_def]
  by_cases hc : c = Byte.newline
  · simp only [if_pos hc, if_pos, List.nil_append]
  · simp only [if_neg hc, if_pos, List.cons_append, List.nil_append]

namespace Scanner

variable {σ : Type} [Source σ]

/-! ## The rounds of a quoted argument -/

/-- The closing quote, if there is one. -/
def closingQuote (closed : Bool) : List UInt8 :=
  if closed then [Byte.quote] else []

theorem closingQuote_false : closingQuote false = [] := rfl

/-- From `s` and `d` a quoted argument is read to its end at `s'` and `d'`: its body without the line
continuations is put on the text of the draft, and whatever lies ahead, the body ends at the first
closing quote. If there is none, nothing lies ahead. -/
def QuotedRead (s : Scanner σ) (d : Draft) (s' : Scanner σ) (d' : Draft) : Prop :=
  ∃ body closed, s.Passes (body ++ closingQuote closed) s' ∧
    d'.token = ⟨if closed then .quoted else .badString,
      d.text ++ withoutContinuations body, d.position⟩ ∧
    ∀ rest, s'.window.Ahead rest →
      quotedLength? (body ++ (closingQuote closed ++ rest)) =
          (if closed then some body.length else none) ∧
        (closed = false → rest = [])

/-- A quoted argument that ends here has been read to its end. -/
theorem quotedRead_of_end {s s' : Scanner σ} {d : Draft} (closed : Bool)
    (hend : s.Passes (closingQuote closed) s')
    (hstop : ∀ rest, s'.window.Ahead rest → closed = false → rest = []) :
    QuotedRead s d s' (d.finish (if closed then .quoted else .badString)) := by
  refine ⟨[], closed, hend, ?_, fun rest hrest => ⟨?_, hstop rest hrest⟩⟩
  · simp only [Draft.token, Draft.kind_finish, Draft.text_finish, Draft.position_finish,
      withoutContinuations, List.append_nil]
  · cases closed with
    | false =>
      rw [hstop rest hrest rfl]
      rfl
    | true => exact quotedLength?_quote rest

/-- A quoted argument goes on after a stretch that adds `kept` to its text. -/
theorem QuotedRead.of_stretch {s s₁ s' : Scanner σ} {d d₁ d' : Draft} {stretch : List UInt8}
    (hpass : s.Passes stretch s₁) (kept : List UInt8) (htext : d₁.text = d.text ++ kept)
    (hposition : d₁.position = d.position)
    (hlength : ∀ more, s₁.window.Ahead more →
      quotedLength? (stretch ++ more) = (quotedLength? more).map (· + stretch.length))
    (hkept : ∀ body more, s₁.window.Ahead (body ++ more) →
      withoutContinuations (stretch ++ body) = kept ++ withoutContinuations body)
    (h : QuotedRead s₁ d₁ s' d') : QuotedRead s d s' d' := by
  obtain ⟨body, closed, hmore, htoken, hclose⟩ := h
  refine ⟨stretch ++ body, closed, ?_, ?_, fun rest hrest => ?_⟩
  · rw [List.append_assoc]
    exact hpass.trans hmore
  · have hahead := hmore.ahead s'.window.ahead_unread
    rw [List.append_assoc] at hahead
    rw [htoken, htext, hposition, hkept body _ hahead, List.append_assoc]
  · obtain ⟨hbody, hend⟩ := hclose rest hrest
    refine ⟨?_, hend⟩
    have hahead := hmore.ahead hrest
    rw [List.append_assoc] at hahead
    rw [List.append_assoc, hlength _ hahead, hbody]
    cases closed with
    | false => rfl
    | true =>
      simp only [if_pos, Option.map_some, List.length_append]
      rw [Nat.add_comm]

/-- A quoted argument goes on after text without a quote or a backslash. -/
theorem QuotedRead.of_text {s s₁ s' : Scanner σ} {d d' : Draft} {run : List UInt8}
    (hpass : s.Passes run s₁) (hquote : Byte.quote ∉ run) (hback : Byte.backslash ∉ run)
    (h : QuotedRead s₁ (d.append run) s' d') : QuotedRead s d s' d' := by
  refine h.of_stretch hpass run (Draft.text_append d run) rfl ?_ ?_
  · exact fun more _ => quotedLength?_append_text hquote hback more
  · exact fun body _ _ => withoutContinuations_append_text hback body

/-- A quoted argument goes on after a pair, which is kept unless it is a line continuation. -/
theorem QuotedRead.of_pair {s s₁ s' : Scanner σ} {d d₁ d' : Draft} {c : UInt8}
    (hpass : s.Passes [Byte.backslash, c] s₁)
    (htext : d₁.text = d.text ++ if c = Byte.newline then [] else [Byte.backslash, c])
    (hposition : d₁.position = d.position) (h : QuotedRead s₁ d₁ s' d') : QuotedRead s d s' d' := by
  refine h.of_stretch hpass _ htext hposition ?_ ?_
  · exact fun more _ => quotedLength?_pair c more
  · exact fun body _ _ => withoutContinuations_pair c body

/-- A quoted argument goes on after a backslash behind which nothing lies ahead. -/
theorem QuotedRead.of_last {s s₁ s' : Scanner σ} {d d' : Draft}
    (hpass : s.Passes [Byte.backslash] s₁) (hlast : ∀ more, s₁.window.Ahead more → more = [])
    (h : QuotedRead s₁ (d.append [Byte.backslash]) s' d') : QuotedRead s d s' d' := by
  refine h.of_stretch hpass [Byte.backslash] (Draft.text_append d _) rfl ?_ ?_
  · intro more hmore
    rw [hlast more hmore]
    rfl
  · intro body more hmore
    obtain ⟨hbody, -⟩ := List.append_eq_nil_iff.1 (hlast _ hmore)
    rw [hbody]
    rfl

/-- A backslash adds itself to the argument with the byte after it, or a line continuation that is
dropped, or itself alone at the end of the input. -/
theorem quotedStop_backslash_handsOn {s : Scanner σ} (d : Draft)
    (hhead : s.window.unread.head? = some Byte.backslash) :
    ∃ r, quotedStop Byte.backslash s d = .ok r ∧ r.HandsOn QuotedRead s d := by
  obtain ⟨hpeek, hready⟩ := peek_one_consumes hhead
  have hhead₁ := peek_head hhead 1
  rw [quotedStop, if_neg (by decide), if_neg (by decide)]
  dsimp only
  cases hsecond : (s.peek 1).1 with
  | none =>
    obtain ⟨s₁, hone, hconsumes, hunread, hended⟩ := take_one_ok hhead₁
    have hpass := (hpeek.trans hconsumes).right (by decide)
    simp only [hone, bind, Except.bind, pure, Except.pure]
    refine ⟨_, rfl, fun s' d' => QuotedRead.of_last hpass ?_⟩
    exact Window.ahead_eq_nil_of_last hready hhead₁ hsecond hunread hended
  | some c =>
    obtain ⟨s₁, htwo, hconsumes⟩ := take_two_ok hhead₁ hsecond
    have hpair := hpeek.trans hconsumes
    simp only [htwo, bind, Except.bind, pure, Except.pure]
    by_cases hc : c = Byte.newline
    · rw [if_pos hc]
      rw [hc] at hpair
      have hline : s.Consumes ([Byte.backslash] ++ [Byte.newline]) s₁ := hpair
      have hpass := hline.nextLine (by decide)
      refine ⟨_, rfl, fun s' d' => QuotedRead.of_pair hpass ?_ rfl⟩
      rw [if_pos rfl, List.append_nil]
    · rw [if_neg hc]
      have hpass := hpair.right (newline_not_mem_pair hc)
      refine ⟨_, rfl, fun s' d' => QuotedRead.of_pair hpass ?_ rfl⟩
      rw [if_neg hc, Draft.text_append]

/-- A byte that is not plain closes the argument or adds a stretch to it. -/
theorem quotedStop_handsOn {s : Scanner σ} {stop : UInt8} (d : Draft)
    (hhead : s.window.unread.head? = some stop) (hstop : isPlainInQuotes stop = false) :
    ∃ r, quotedStop stop s d = .ok r ∧ r.HandsOn QuotedRead s d := by
  rcases Byte.eq_of_not_isPlainInQuotes hstop with rfl | rfl | rfl
  · obtain ⟨s₁, hone, hconsumes, -, -⟩ := take_one_ok hhead
    simp only [quotedStop, if_true, hone, bind, Except.bind, pure, Except.pure]
    refine ⟨_, rfl, quotedRead_of_end true (hconsumes.right (by decide)) ?_⟩
    intro rest _ hopen
    cases hopen
  · obtain ⟨s₁, hone, hconsumes, -, -⟩ := take_one_ok hhead
    have hpass := hconsumes.nextLine_of_newline
    rw [quotedStop, if_neg (by decide), if_pos rfl]
    simp only [hone, bind, Except.bind, pure, Except.pure]
    exact ⟨_, rfl, fun s' d' => QuotedRead.of_text hpass (by decide) (by decide)⟩
  · exact quotedStop_backslash_handsOn d hhead

/-- Each round of a quoted argument either ends it or adds a stretch to it. -/
theorem quotedRound_handsOn (s : Scanner σ) (d : Draft) :
    ∃ r, quotedRound s d = .ok r ∧ r.HandsOn QuotedRead s d := by
  obtain ⟨run, stop, s₁, hfront, hlook, hcase⟩ := s.front_ok isPlainInQuotes
  simp only [quotedRound, hfront]
  cases hcase with
  | ended hend =>
    exact ⟨_, rfl, quotedRead_of_end false hlook.passes_nil fun rest hrest _ => hend.eq_nil hrest⟩
  | whole hne hall hunread =>
    obtain ⟨s₂, htake, hpass, -⟩ :=
      hlook.take_right (by rw [hunread, List.append_nil]) (not_mem_of_all hall (by decide))
    simp only [if_neg hne, htake, bind, Except.bind, pure, Except.pure]
    exact ⟨_, rfl, fun s' d' => QuotedRead.of_text hpass (not_mem_of_all hall (by decide))
      (not_mem_of_all hall (by decide))⟩
  | stopped hall hother hunread =>
    obtain ⟨s₂, htake, hpass, hlater⟩ :=
      hlook.take_right hunread (not_mem_of_all hall (by decide))
    obtain ⟨r, hok, hhands⟩ := quotedStop_handsOn (s := s₂.right run.length) (d.append run)
      (by rw [right_window, hlater]; rfl) hother
    simp only [htake, bind, Except.bind, hok]
    exact ⟨r, rfl, hhands.imp fun s' d' => QuotedRead.of_text hpass
      (not_mem_of_all hall (by decide)) (not_mem_of_all hall (by decide))⟩

/-- Reading on from after the opening quote succeeds and reads the argument to its end. -/
theorem quoted_ok (s : Scanner σ) (d : Draft) :
    ∃ s' d', quoted s d = .ok (s', d') ∧ QuotedRead s d s' d' :=
  repeatUntilDone_rule quotedRound_advances.progresses quotedRound_handsOn s d

end Scanner

end Listfile
