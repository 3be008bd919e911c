import Listfile.Proofs.Scanner
import Listfile.Scanner.Gap

/-!
# Blanks and lines are scanned to their end

Blanks are passed up to the next byte of another class (`blanks_ok`), and the rest of a line up to and
with its newline, or up to the end of the input (`restOfLine_ok`). Over blanks the position goes right.
At the newline of a line it goes to the next line at once, over the bytes before the newline that it
has not been moved over.
-/

namespace Listfile.Scanner

variable {σ : Type} [Source σ]

/-! ## Blanks -/

/-- From `s` and `d` blanks are read to their end at `s'` and `d'`, and put on the text of the draft if
they are tokens. -/
def BlanksRead (s : Scanner σ) (d : Draft) (s' : Scanner σ) (d' : Draft) : Prop :=
  ∃ run, s.Passes run s' ∧ (∀ b ∈ run, Byte.isBlank b = true) ∧
    d'.text = d.text ++ (if s.emitSpace then run else []) ∧ d'.position = d.position ∧
    ∀ rest, s'.window.Ahead rest → ∀ b, rest.head? = some b → Byte.isBlank b = false

/-- A stretch of blanks behind which no blank lies ahead has been read to its end. -/
theorem blanksRead_of_stop {s s' : Scanner σ} {d : Draft} {run : List UInt8} (hpass : s.Passes run s')
    (hall : ∀ b ∈ run, Byte.isBlank b = true)
    (hstop : ∀ rest, s'.window.Ahead rest → ∀ b, rest.head? = some b → Byte.isBlank b = false) :
    BlanksRead s d s' (if s.emitSpace then d.append run else d) := by
  refine ⟨run, hpass, hall, ?_, ?_, hstop⟩
  · split
    · exact Draft.text_append d run
    · exact (List.append_nil _).symm
  · split <;> rfl

/-- Blanks go on after a stretch of them. -/
theorem BlanksRead.of_stretch {s s₁ s' : Scanner σ} {d d' : Draft} {run : List UInt8}
    (hpass : s.Passes run s₁) (hall : ∀ b ∈ run, Byte.isBlank b = true)
    (h : BlanksRead s₁ (if s.emitSpace then d.append run else d) s' d') : BlanksRead s d s' d' := by
  obtain ⟨more, hmore, hall', htext, hposition, hstop⟩ := h
  refine ⟨run ++ more, hpass.trans hmore, ?_, ?_, ?_, hstop⟩
  · intro b hb
    rcases List.mem_append.1 hb with hb | hb
    · exact hall b hb
    · exact hall' b hb
  · rw [htext, hpass.emitSpace]
    split
    · rw [Draft.text_append, List.append_assoc]
    · rfl
  · rw [hposition]
    split <;> rfl

/-- Each round of blanks ends them or passes a stretch of them. -/
theorem blankRound_handsOn (s : Scanner σ) (d : Draft) :
    ∃ r, blankRound s d = .ok r ∧ r.HandsOn BlanksRead s d := by
  obtain ⟨run, stop, s₁, hfront, hlook, hcase⟩ := s.front_ok Byte.isBlank
  simp only [blankRound, hfront, hlook.emitSpace]
  cases hcase with
  | ended hend =>
    rw [List.length_nil, take_zero]
    refine ⟨_, rfl, blanksRead_of_stop hlook.passes_nil (by simp) ?_⟩
    intro rest hrest b hb
    rw [hend.eq_nil hrest] at hb
    cases hb
  | whole hne hall hunread =>
    obtain ⟨s₂, htake, hpass, -⟩ :=
      hlook.take_right (by rw [hunread, List.append_nil]) (not_mem_of_all hall (by decide))
    simp only [htake, bind, Except.bind, pure, Except.pure, ne_eq, hne, not_false_eq_true, and_self,
      if_true]
    exact ⟨_, rfl, fun s' d' => BlanksRead.of_stretch hpass hall⟩
  | @stopped run later stop hall hother hunread =>
    obtain ⟨s₂, htake, hpass, hlater⟩ :=
      hlook.take_right hunread (not_mem_of_all hall (by decide))
    simp only [htake, bind, Except.bind, pure, Except.pure, reduceCtorEq, and_false, if_false]
    refine ⟨_, rfl, blanksRead_of_stop hpass hall ?_⟩
    intro rest hrest b hb
    have hhead : (s₂.right run.length).window.unread.head? = some stop := by
      rw [right_window, hlater]
      rfl
    rw [hrest.head?_eq (Window.ready_of_head hhead), hhead] at hb
    cases hb
    exact hother

/-- Reading blanks succeeds and reads them to their end. -/
theorem blanks_ok (s : Scanner σ) (d : Draft) :
    ∃ s' d', blanks s d = .ok (s', d') ∧ BlanksRead s d s' d' :=
  repeatUntilDone_rule blankRound_advances.progresses blankRound_handsOn s d

/-! ## Lines -/

/-- The newline, if there is one. -/
def closingNewline (ended : Bool) : List UInt8 :=
  if ended then [Byte.newline] else []

/-- From `s` the rest of a line is read to its end at `s'`, with its newline. If there is none, nothing
lies ahead. -/
def LineRead (s : Scanner σ) (_ : Draft) (s' : Scanner σ) (_ : Draft) : Prop :=
  ∃ body ended, s.Passes (body ++ closingNewline ended) s' ∧ Byte.newline ∉ body ∧
    ∀ rest, s'.window.Ahead rest → ended = false → rest = []

/-- Each round of a line ends it or passes a stretch of it. -/
theorem lineRound_handsOn (s : Scanner σ) (d : Draft) :
    ∃ r, lineRound s d = .ok r ∧ r.HandsOn LineRead s d := by
  obtain ⟨run, stop, s₁, hfront, hlook, hcase⟩ := s.front_ok (· != Byte.newline)
  simp only [lineRound, hfront]
  cases hcase with
  | ended hend =>
    exact ⟨_, rfl, [], false, hlook.passes_nil, List.not_mem_nil,
      fun rest hrest _ => hend.eq_nil hrest⟩
  | whole hne hall hunread =>
    have hline : Byte.newline ∉ run := not_mem_of_all hall (by decide)
    obtain ⟨s₂, htake, hpass, -⟩ := hlook.take_right (by rw [hunread, List.append_nil]) hline
    simp only [if_neg hne, htake, bind, Except.bind, pure, Except.pure]
    refine ⟨_, rfl, ?_⟩
    rintro s' d' ⟨body, ended, hmore, hbody, hend⟩
    refine ⟨run ++ body, ended, ?_, ?_, hend⟩
    · rw [List.append_assoc]
      exact hpass.trans hmore
    · rw [List.mem_append, not_or]
      exact ⟨hline, hbody⟩
  | @stopped run later stop hall hother hunread =>
    obtain rfl : stop = Byte.newline := bne_eq_false_iff_eq.1 hother
    have hline : Byte.newline ∉ run := not_mem_of_all hall (by decide)
    obtain ⟨s₂, htake, htaken⟩ := take_succ_ok hunread
    have hconsumes : s.Consumes (run ++ [Byte.newline]) s₂ := hlook.trans htaken
    simp only [htake, bind, Except.bind, pure, Except.pure]
    refine ⟨_, rfl, run, true, hconsumes.nextLine hline, hline, ?_⟩
    intro rest _ hopen
    cases hopen

/-- Reading the rest of a line succeeds and reads it to its end. -/
theorem restOfLine_ok (s : Scanner σ) (d : Draft) :
    ∃ s' d', restOfLine s d = .ok (s', d') ∧ LineRead s d s' d' :=
  repeatUntilDone_rule lineRound_advances.progresses lineRound_handsOn s d

end Listfile.Scanner
