import Listfile.Proofs.Scanner
import Listfile.Scanner.Word
import Listfile.Segment

/-!
# Bare words are scanned to their full length

`wordLength` gives the length of the bare word at the front of an input in one go; `Scanner.word`
finds the word in rounds, through a window. They agree: whatever lies ahead where the scanner stops,
the bytes it has passed are the word at the front (`word_ok`).

The laws of `wordLength` below are those that the rounds need: bare bytes and pairs lengthen a word
by themselves, and it stops where neither comes next.
-/

namespace Listfile

/-! ## The length of a word -/

/-- A backslash is no bare byte. -/
theorem Byte.ne_backslash_of_isBare {b : UInt8} (h : Byte.isBare b = true) :
    b ≠ Byte.backslash := by
  rintro rfl
  exact absurd h (by decide)

/-- A bare byte adds itself to the word after it. -/
theorem wordLength_cons_of_isBare {b : UInt8} (h : Byte.isBare b = true) (rest : List UInt8) :
    wordLength (b :: rest) = wordLength rest + 1 := by
  rw [wordLength.eq_def]
  simp only [if_neg (Byte.ne_backslash_of_isBare h), if_pos h]

/-- A run of bare bytes adds its length to the word after it. -/
theorem wordLength_append_of_isBare {run : List UInt8} (h : ∀ b ∈ run, Byte.isBare b = true)
    (rest : List UInt8) : wordLength (run ++ rest) = run.length + wordLength rest := by
  induction run with
  | nil => rw [List.nil_append, List.length_nil, Nat.zero_add]
  | cons b run ih =>
    rw [List.cons_append, wordLength_cons_of_isBare (h b List.mem_cons_self),
      ih fun c hc => h c (List.mem_cons_of_mem b hc), List.length_cons]
    omega

/-- A backslash and a byte other than a newline add two to the word after them. -/
theorem wordLength_pair {c : UInt8} (h : c ≠ Byte.newline) (rest : List UInt8) :
    wordLength (Byte.backslash :: c :: rest) = wordLength rest + 2 := by
  rw [wordLength, if_pos rfl]
  simp only [if_neg h]

/-- There is no word where neither a bare byte nor a pair comes next. -/
theorem wordLength_eq_zero {rest : List UInt8}
    (hbare : ∀ b, rest.head? = some b → Byte.isBare b = false)
    (hpair : rest.head? = some Byte.backslash → Scanner.isEscapable rest[1]? = false) :
    wordLength rest = 0 := by
  cases rest with
  | nil => rfl
  | cons b rest =>
    by_cases hb : b = Byte.backslash
    · rw [wordLength.eq_def]
      simp only [if_pos hb]
      cases rest with
      | nil => rfl
      | cons c rest =>
        have hnewline : c = Byte.newline := by
          have hnot := hpair (by rw [hb]; rfl)
          simpa [Scanner.isEscapable] using hnot
        simp only [if_pos hnewline]
    · have hnot : ¬ Byte.isBare b = true := by
        rw [hbare b rfl]
        exact Bool.false_ne_true
      rw [wordLength.eq_def]
      simp only [if_neg hb, if_neg hnot]

namespace Scanner

variable {σ : Type} [Source σ]

/-! ## The rounds of a word -/

/-- From `s` and `d` a word is read to its end at `s'` and `d'`: the bytes passed are put on the text
of the draft, and whatever lies ahead, they are the word that is there. -/
def WordRead (s : Scanner σ) (d : Draft) (s' : Scanner σ) (d' : Draft) : Prop :=
  ∃ bytes, s.Passes bytes s' ∧
    d'.token = ⟨Kind.ofWord s.depth (d.text ++ bytes), d.text ++ bytes, d.position⟩ ∧
    ∀ rest, s'.window.Ahead rest → wordLength (bytes ++ rest) = bytes.length

/-- A word that goes no further has been read to its end. -/
theorem wordRead_of_stop {s s' : Scanner σ} {d d₁ : Draft} (hsame : s.Passes [] s')
    (htext : d₁.text = d.text) (hposition : d₁.position = d.position)
    (hstop : ∀ rest, s'.window.Ahead rest → wordLength rest = 0) :
    WordRead s d s' (d₁.finish (Kind.ofWord s'.depth d₁.text)) := by
  refine ⟨[], hsame, ?_, fun rest hrest => hstop rest hrest⟩
  simp only [Draft.token, Draft.kind_finish, Draft.text_finish, Draft.position_finish, hsame.depth,
    htext, hposition, List.append_nil]

/-- A word goes on after a stretch that lengthens it. -/
theorem WordRead.of_stretch {s s₁ s' : Scanner σ} {d d₁ d' : Draft} {stretch : List UInt8}
    (hpass : s.Passes stretch s₁)
    (hlength : ∀ rest, wordLength (stretch ++ rest) = stretch.length + wordLength rest)
    (htext : d₁.text = d.text ++ stretch) (hposition : d₁.position = d.position)
    (h : WordRead s₁ d₁ s' d') : WordRead s d s' d' := by
  obtain ⟨bytes, hmore, htoken, hword⟩ := h
  refine ⟨stretch ++ bytes, hpass.trans hmore, ?_, fun rest hrest => ?_⟩
  · rw [htoken, htext, hposition, hpass.depth, List.append_assoc]
  · rw [List.append_assoc, hlength, hword rest hrest, List.length_append]

/-- A byte that can stand after a backslash in a word is there and is not a newline. -/
theorem isEscapable_iff {byte : Option UInt8} :
    isEscapable byte = true ↔ ∃ c, byte = some c ∧ c ≠ Byte.newline := by
  cases byte <;> simp [isEscapable]

/-- A byte that is not bare ends the word, or it adds a pair to it. -/
theorem wordStop_handsOn {s : Scanner σ} {stop : UInt8} (d : Draft)
    (hhead : s.window.unread.head? = some stop) (hother : Byte.isBare stop = false) :
    ∃ r, wordStop stop s d = .ok r ∧ r.HandsOn WordRead s d := by
  unfold wordStop
  by_cases hback : stop = Byte.backslash
  · rw [hback] at hhead
    obtain ⟨hpeek, hready⟩ := peek_one_consumes hhead
    have hhead₁ := peek_head hhead 1
    rw [if_pos hback]
    by_cases hpair : isEscapable (s.peek 1).1 = true
    · obtain ⟨c, hc, hnewline⟩ := isEscapable_iff.1 hpair
      obtain ⟨s₁, htwo, hconsumes⟩ := take_two_ok hhead₁ hc
      have hpass := (hpeek.trans hconsumes).right (newline_not_mem_pair hnewline)
      simp only [if_pos hpair, htwo, bind, Except.bind, pure, Except.pure]
      refine ⟨_, rfl, fun s' d' => WordRead.of_stretch hpass ?_ (Draft.text_append _ _) rfl⟩
      intro rest
      exact (wordLength_pair hnewline rest).trans (Nat.add_comm _ _)
    · -- The backslash stands before a newline or the end, so the word stops before it.
      simp only [if_neg hpair, pure, Except.pure]
      refine ⟨_, rfl, wordRead_of_stop hpeek.passes_nil rfl rfl ?_⟩
      intro rest hrest
      apply wordLength_eq_zero
      · intro b hb
        rw [hrest.head?_eq (hready.imp (by omega) id), hhead₁] at hb
        cases hb
        decide
      · intro _
        rw [hrest.getElem?_eq hready (by omega)]
        exact Bool.eq_false_iff.2 hpair
  · rw [if_neg hback]
    refine ⟨_, rfl, wordRead_of_stop (Passes.refl s) rfl rfl ?_⟩
    intro rest hrest
    have hnext : rest.head? = some stop := by
      rw [hrest.head?_eq (Window.ready_of_head hhead), hhead]
    apply wordLength_eq_zero
    · intro b hb
      rw [hnext] at hb
      cases hb
      exact hother
    · intro hb
      rw [hnext] at hb
      cases hb
      exact absurd rfl hback

/-- Each round of a word either ends it or adds a stretch to it. -/
theorem wordRound_handsOn (s : Scanner σ) (d : Draft) :
    ∃ r, wordRound s d = .ok r ∧ r.HandsOn WordRead s d := by
  obtain ⟨run, stop, s₁, hfront, hlook, hcase⟩ := s.front_ok Byte.isBare
  simp only [wordRound, hfront]
  cases hcase with
  | ended hend =>
    rw [List.length_nil, take_zero]
    refine ⟨_, rfl, wordRead_of_stop hlook.passes_nil ?_ rfl ?_⟩
    · rw [Draft.text_append, List.append_nil]
    · intro rest hrest
      rw [hend.eq_nil hrest]
      rfl
  | whole hne hall hunread =>
    obtain ⟨s₂, htake, hpass, -⟩ :=
      hlook.take_right (by rw [hunread, List.append_nil]) (not_mem_of_all hall (by decide))
    simp only [htake, bind, Except.bind, pure, Except.pure, if_neg hne]
    exact ⟨_, rfl, fun s' d' => WordRead.of_stretch hpass (wordLength_append_of_isBare hall)
      (Draft.text_append d run) rfl⟩
  | stopped hall hother hunread =>
    obtain ⟨s₂, htake, hpass, hlater⟩ :=
      hlook.take_right hunread (not_mem_of_all hall (by decide))
    obtain ⟨r, hok, hhands⟩ := wordStop_handsOn (s := s₂.right run.length) (d.append run)
      (by rw [right_window, hlater]; rfl) hother
    simp only [htake, bind, Except.bind, hok]
    exact ⟨r, rfl, hhands.imp fun s' d' => WordRead.of_stretch hpass
      (wordLength_append_of_isBare hall) (Draft.text_append d run) rfl⟩

/-- Reading on from the start of a word succeeds and reads the word to its end. -/
theorem word_ok (s : Scanner σ) (d : Draft) :
    ∃ s' d', word s d = .ok (s', d') ∧ WordRead s d s' d' :=
  repeatUntilDone_rule wordRound_advances.progresses wordRound_handsOn s d

end Scanner

end Listfile
