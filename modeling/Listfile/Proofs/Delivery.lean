import Listfile.Proofs.Scanner.Run
import Listfile.Source.Memory
import Listfile.Source.Pieces

/-!
# What a source delivers

A source need not know beforehand what it will hand out, and what it hands out may depend on the room
that it is offered. Many sources do know: their answers, put together up to the first empty one, are
always the same bytes, only cut differently. `Source.Accounts` singles these out, by a relation
between states and bytes that every answer respects. Some sources respect it only as long as nothing
goes wrong behind them. So the answers that count can be limited to those that leave the source in
order; it must not come into order again later.

A scanner on such a source, if it comes to the end in order, holds exactly the bytes that the
relation gives, whatever the size of its window (`Accounts.holds`). A source that is always in order
delivers its bytes to every scanner (`Delivers.holds`): bytes in memory deliver themselves
(`Memory.delivers`), and pieces deliver their concatenation, up to the first empty piece
(`Pieces.delivers`).
-/

namespace Listfile

variable {σ : Type} [Source σ]

/-! ## Sources that know their bytes -/

/-- A relation between states and the bytes still to come that every answer respects, as long as the
source is in order afterwards: the answer is the start of these bytes and what is left is still to
come, and an empty answer is given only if no bytes are to come. -/
structure Source.Accounts (ok : σ → Prop) (R : σ → List UInt8 → Prop) : Prop where
  /-- A source that is in order after an answer was so before. -/
  before : ∀ {s : σ} {room : Nat}, ok (Source.fill s room).2 → ok s
  /-- An answer respects the relation. -/
  fill : ∀ {s : σ} {bytes : List UInt8} {room : Nat}, R s bytes → 0 < room →
    ok (Source.fill s room).2 → ((Source.fill s room).1 = [] ∧ bytes = []) ∨
      ∃ rest, (Source.fill s room).1 ≠ [] ∧ bytes = (Source.fill s room).1 ++ rest ∧
        R (Source.fill s room).2 rest

/-- Asked with whatever room, time and again, the source hands out `bytes` before its first empty
answer. -/
def Source.Delivers (s : σ) (bytes : List UInt8) : Prop :=
  ∃ R : σ → List UInt8 → Prop, Source.Accounts (fun _ => True) R ∧ R s bytes

/-! ## Windows on such sources -/

namespace Window

/-- The bytes to come through a window: those unread, and those that its source still accounts
for. -/
inductive Feeds (R : σ → List UInt8 → Prop) : Window σ → List UInt8 → Prop where
  /-- The source has come to its end. -/
  | ended {w : Window σ} (h : w.exhausted = true) : Feeds R w w.unread
  /-- The source is open. -/
  | opened {w : Window σ} {later : List UInt8} (h : w.exhausted = false)
      (accounted : R w.source later) : Feeds R w (w.unread ++ later)

/-- A move leaves the capacity as it is. -/
theorem Move.capacity {w w' : Window σ} {bytes : List UInt8} (move : Move w bytes w') :
    w'.capacity = w.capacity := by
  cases move with
  | refill hopen _ =>
    obtain ⟨room, answer, -, -, hrefill⟩ := refill_of_open hopen
    rw [hrefill]
  | take _ => rfl

variable {ok : σ → Prop} {R : σ → List UInt8 → Prop}

/-- A source that is in order after a move was so before. -/
theorem Move.before {w w' : Window σ} {bytes : List UInt8} (move : Move w bytes w')
    (haccounts : Source.Accounts ok R) (h : ok w'.source) : ok w.source := by
  cases move with
  | refill hopen _ =>
    obtain ⟨room, answer, -, hanswer, hrefill⟩ := refill_of_open hopen
    rw [hrefill, hanswer] at h
    exact haccounts.before h
  | take _ => exact h

/-- A source that is in order at the end of a path was so at its start. -/
theorem Path.before {w w' : Window σ} {bytes : List UInt8} (path : Path w bytes w')
    (haccounts : Source.Accounts ok R) (h : ok w'.source) : ok w.source := by
  induction path with
  | stay w => exact h
  | step move _ ih => exact move.before haccounts (ih h)

/-- A move takes the bytes that it consumes off those to come. Since at most one byte is unread when
the source is asked, it is offered room, and an empty answer means its end. -/
theorem Move.feeds {w w' : Window σ} {bytes input : List UInt8} (move : Move w bytes w')
    (haccounts : Source.Accounts ok R) (hcapacity : 2 ≤ w.capacity) (hok : ok w'.source)
    (h : w.Feeds R input) : ∃ rest, input = bytes ++ rest ∧ w'.Feeds R rest := by
  cases move with
  | refill hopen hunread =>
    obtain ⟨room, answer, hroom, hanswer, hrefill⟩ := refill_of_open hopen
    refine ⟨input, rfl, ?_⟩
    cases h with
    | ended hended =>
      rw [hopen] at hended
      cases hended
    | opened _ haccounted =>
      have hpos : 0 < room := by
        rw [hroom]
        rcases hunread with hu | hu <;> rw [hu] <;> simp only [List.length_cons, List.length_nil] <;>
          omega
      rw [hrefill, hanswer] at hok
      rw [hrefill]
      rcases haccounts.fill haccounted hpos hok with ⟨hnil, rfl⟩ | ⟨rest, hne, rfl, hrest⟩
      · rw [← hanswer] at hnil
        rw [hnil]
        exact .ended rfl
      · rw [← hanswer] at hne hrest ⊢
        rw [← List.append_assoc]
        refine .opened ?_ hrest
        simpa using hne
  | take hn =>
    cases h with
    | ended hended =>
      refine ⟨w.unread.drop _, (List.take_append_drop _ _).symm, .ended hended⟩
    | @opened later hopen haccounted =>
      refine ⟨w.unread.drop _ ++ later, ?_, .opened hopen haccounted⟩
      rw [← List.append_assoc, List.take_append_drop]

/-- A path takes the bytes that it consumes off those to come. -/
theorem Path.feeds {w w' : Window σ} {bytes input : List UInt8} (path : Path w bytes w')
    (haccounts : Source.Accounts ok R) (hcapacity : 2 ≤ w.capacity) (hok : ok w'.source)
    (h : w.Feeds R input) : ∃ rest, input = bytes ++ rest ∧ w'.Feeds R rest := by
  induction path generalizing input with
  | stay w => exact ⟨input, rfl, h⟩
  | step move path ih =>
    obtain ⟨rest, rfl, hrest⟩ := move.feeds haccounts hcapacity (path.before haccounts hok) h
    obtain ⟨later, rfl, hlater⟩ := ih (by rw [move.capacity]; exact hcapacity) hok hrest
    exact ⟨later, (List.append_assoc _ _ _).symm, hlater⟩

end Window

/-- A scanner that comes to the end with its source in order holds what its window feeds. -/
theorem Window.Feeds.holds {ok : σ → Prop} {R : σ → List UInt8 → Prop} {s : Scanner σ}
    {bytes : List UInt8} (hfeeds : s.window.Feeds R bytes) (h : Source.Accounts ok R)
    (hcapacity : 2 ≤ s.window.capacity) {d : Draft} {n : Nat}
    (hend : (Scanner.after n s d).1.window.AtEnd)
    (hok : ok (Scanner.after n s d).1.window.source) : s.Holds d bytes := by
  obtain ⟨input, hpath⟩ := Scanner.after_path n s d
  obtain ⟨rest, hbytes, hrest⟩ := hpath.feeds h hcapacity hok hfeeds
  have hnil : rest = [] := by
    cases hrest with
    | ended _ => exact hend.unread
    | opened hopen _ =>
      rw [hend.exhausted] at hopen
      cases hopen
  refine ⟨n, hend, ?_⟩
  have hsame : bytes = input := by
    rw [hnil, List.append_nil] at hbytes
    exact hbytes
  rw [hsame]
  exact hpath

/-- A window of these settings has room for two bytes. -/
theorem Settings.two_le_windowSize (settings : Settings) : 2 ≤ settings.windowSize :=
  Nat.le_trans (by decide) settings.leastChunkSize_le_windowSize

/-- A scanner that comes to the end with its source in order holds the bytes that the source accounts
for. -/
theorem Source.Accounts.holds {ok : σ → Prop} {R : σ → List UInt8 → Prop} {source : σ}
    {bytes : List UInt8} (h : Source.Accounts ok R) (hR : R source bytes) (settings : Settings)
    (d : Draft) {n : Nat}
    (hend : (Scanner.after n (Scanner.ofSource settings source) d).1.window.AtEnd)
    (hok : ok (Scanner.after n (Scanner.ofSource settings source) d).1.window.source) :
    (Scanner.ofSource settings source).Holds d bytes := by
  have hfeeds : (Scanner.ofSource settings source).window.Feeds R bytes := .opened rfl hR
  exact hfeeds.holds h settings.two_le_windowSize hend hok

/-- A scanner with a fresh window holds the bytes that its source delivers, wherever it stands. -/
theorem Source.Delivers.holds_of_window {source : σ} {bytes : List UInt8}
    (h : Source.Delivers source bytes) {s : Scanner σ} {settings : Settings}
    (hwindow : s.window = Window.ofSource source settings.windowSize) (d : Draft) :
    s.Holds d bytes := by
  obtain ⟨R, haccounts, hR⟩ := h
  obtain ⟨n, hend⟩ := Scanner.exists_atEnd s d
  have hfeeds : s.window.Feeds R bytes := by
    rw [hwindow]
    exact .opened rfl hR
  have hcapacity : 2 ≤ s.window.capacity := by
    rw [hwindow]
    exact settings.two_le_windowSize
  exact hfeeds.holds haccounts hcapacity hend trivial

/-- A scanner holds the bytes that its source delivers. -/
theorem Source.Delivers.holds {source : σ} {bytes : List UInt8} (h : Source.Delivers source bytes)
    (settings : Settings) (d : Draft) : (Scanner.ofSource settings source).Holds d bytes :=
  h.holds_of_window rfl d

/-! ## Memory and pieces -/

/-- Memory accounts for its bytes. -/
theorem Memory.accounts :
    Source.Accounts (fun _ => True) fun (m : Memory) bytes => bytes = m.rest := by
  refine ⟨fun _ => trivial, ?_⟩
  rintro m bytes room rfl hroom -
  have hfill : (Source.fill m room).1 ++ (Source.fill m room).2.rest = m.rest :=
    m.fill_append_rest room
  by_cases hnil : (Source.fill m room).1 = []
  · left
    refine ⟨hnil, ?_⟩
    rcases List.take_eq_nil_iff.1 hnil with hzero | hrest
    · omega
    · exact hrest
  · exact .inr ⟨_, hnil, hfill.symm, rfl⟩

/-- Bytes in memory deliver themselves. -/
theorem Memory.delivers (m : Memory) : Source.Delivers m m.rest :=
  ⟨_, Memory.accounts, rfl⟩

/-- The bytes of pieces up to the first empty one. -/
def Pieces.bytes (p : Pieces) : List UInt8 :=
  (p.rest.takeWhile fun piece => !piece.isEmpty).flatten

/-- Pieces deliver their bytes up to the first empty piece. -/
theorem Pieces.delivers (p : Pieces) : Source.Delivers p p.bytes := by
  refine ⟨fun p bytes => bytes = p.bytes,
    ⟨fun _ => trivial, fun {p bytes room} hbytes hroom _ => ?_⟩, rfl⟩
  subst hbytes
  obtain ⟨pieces⟩ := p
  cases pieces with
  | nil => exact .inl ⟨rfl, rfl⟩
  | cons piece later =>
    cases piece with
    | nil =>
      left
      exact ⟨by simp [Source.fill, fill], rfl⟩
    | cons b piece =>
      right
      by_cases hfits : (b :: piece).length ≤ room
      · have hfill : Source.fill (⟨(b :: piece) :: later⟩ : Pieces) room =
            (b :: piece, ⟨later⟩) := by
          simp only [Source.fill, fill, if_pos hfits]
        rw [hfill]
        exact ⟨_, List.cons_ne_nil _ _, rfl, rfl⟩
      · have hfill : Source.fill (⟨(b :: piece) :: later⟩ : Pieces) room =
            ((b :: piece).take room, ⟨(b :: piece).drop room :: later⟩) := by
          simp only [Source.fill, fill, if_neg hfits]
        have hdrop : ((b :: piece).drop room).isEmpty = false := by
          rw [List.isEmpty_eq_false_iff]
          intro hnil
          exact hfits (List.drop_eq_nil_iff.1 hnil)
        rw [hfill]
        refine ⟨_, ?_, ?_, rfl⟩
        · intro hnil
          rcases List.take_eq_nil_iff.1 hnil with hzero | hcons
          · omega
          · cases hcons
        · simp only [bytes, List.takeWhile_cons, hdrop, List.isEmpty_cons, Bool.not_false, if_true,
            List.flatten_cons]
          rw [← List.append_assoc, List.take_append_drop]

end Listfile
