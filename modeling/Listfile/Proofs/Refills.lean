import Listfile.Proofs.Safety

/-!
# When a source is asked, and for how much

A window asks its source for as many bytes as it has room for. An empty answer is taken for the end of
the input, so a request without room would cut the input off unnoticed. This module settles which
requests a run makes.

* A request is made when nothing is unread, and then it offers the whole window, or when a lone
  backslash is unread, and then it offers one byte less. There is no third case, and the room tells
  which of the two it is (`Refill.Timely`).
* After an empty answer no request is made.
* The bytes consumed and those unread are at every moment the bytes handed out.

All this is read off the list of requests that a window keeps. That the list is complete and true to
what passed between the window and its source is a statement of its own: the source, asked for the same
rooms once more, gives the same answers and ends in the same state.

`Window.Orderly` puts these facts together for one window. A move keeps them (`Move.orderly`), hence a
path does, and every run goes along a path.
-/

namespace Listfile

/-! ## Asking time and again -/

/-- The answers to requests with the given rooms, one after the other. -/
def Source.answers {σ : Type} (fill : σ → Nat → List UInt8 × σ) (s : σ) :
    List Nat → List (List UInt8) × σ
  | [] => ([], s)
  | room :: rooms =>
    let more := answers fill (fill s room).2 rooms
    ((fill s room).1 :: more.1, more.2)

/-- One more request is put to the state that those before it have led to. -/
theorem Source.answers_concat {σ : Type} (fill : σ → Nat → List UInt8 × σ) (s : σ)
    (rooms : List Nat) (room : Nat) :
    Source.answers fill s (rooms ++ [room]) =
      ((Source.answers fill s rooms).1 ++ [(fill (Source.answers fill s rooms).2 room).1],
        (fill (Source.answers fill s rooms).2 room).2) := by
  induction rooms generalizing s with
  | nil => rfl
  | cons first rooms ih => simp only [List.cons_append, Source.answers, ih]

/-- The first answers are those to the first requests. -/
theorem Source.take_answers {σ : Type} (fill : σ → Nat → List UInt8 × σ) (s : σ)
    (rooms : List Nat) (k : Nat) :
    (Source.answers fill s rooms).1.take k = (Source.answers fill s (rooms.take k)).1 := by
  induction rooms generalizing s k with
  | nil => simp only [List.take_nil, Source.answers]
  | cons room rooms ih =>
    cases k with
    | zero => rfl
    | succ k => simp only [List.take_succ_cons, Source.answers, ih]

/-- Up to the last answer that it still gives, a supply that is cut off answers like the supply. -/
theorem Limited.answers_eq {υ : Type} [Supply υ] {l : Limited υ} {rooms : List Nat}
    (h : rooms.length ≤ l.answers) :
    (Source.answers Source.fill l rooms).1 = (Source.answers Supply.fill l.supply rooms).1 := by
  induction rooms generalizing l with
  | nil => rfl
  | cons room rooms ih =>
    obtain ⟨supply, answers⟩ := l
    cases answers with
    | zero => exact absurd h (Nat.not_succ_le_zero _)
    | succ answers =>
      have hlater := @ih ⟨(Supply.fill supply room).2, answers⟩ (Nat.le_of_succ_le_succ h)
      simp only [Source.answers]
      rw [← hlater]
      rfl

/-! ## One request -/

/-- The request `r` comes in time after the requests `before`, for a window of the given size. -/
structure Refill.Timely (size : Nat) (before : List Refill) (r : Refill) : Prop where
  /-- The whole window is offered, or all but one byte of it. -/
  room : r.room = size ∨ r.room = size - 1
  /-- What is offered has room. -/
  pos : 0 < r.room
  /-- The whole window is offered if and only if all bytes handed out so far have been consumed. -/
  whole : r.room = size ↔ r.taken = (before.flatMap Refill.bytes).length
  /-- One byte less is offered if and only if all of them but the last have been consumed, and the
  last is a backslash. -/
  less : r.room = size - 1 ↔
    ∃ consumed, consumed.length = r.taken ∧ before.flatMap Refill.bytes = consumed ++ [Byte.backslash]
  /-- None of the requests before was answered with nothing. -/
  answered : ∀ earlier ∈ before, earlier.bytes ≠ []

/-- A request for the room beside the unread bytes is in time, if at most a backslash is unread. -/
theorem Refill.timely_of_unread {size : Nat} {before : List Refill} {r : Refill}
    {consumed unread : List UInt8} (hsize : 2 ≤ size)
    (hunread : unread = [] ∨ unread = [Byte.backslash]) (hroom : r.room = size - unread.length)
    (hbytes : consumed ++ unread = before.flatMap Refill.bytes) (htaken : consumed.length = r.taken)
    (hanswered : ∀ earlier ∈ before, earlier.bytes ≠ []) : r.Timely size before := by
  have hlength : (before.flatMap Refill.bytes).length = r.taken + unread.length := by
    rw [← hbytes, List.length_append, htaken]
  rcases hunread with rfl | rfl
  · rw [List.length_nil] at hroom hlength
    refine ⟨.inl hroom, by omega, ⟨fun _ => by omega, fun _ => hroom⟩, ?_, hanswered⟩
    refine ⟨fun hless => by omega, ?_⟩
    rintro ⟨other, hother, hdelivered⟩
    rw [hdelivered, List.length_append, hother, List.length_singleton] at hlength
    omega
  · rw [List.length_singleton] at hroom hlength
    refine ⟨.inr hroom, by omega, ⟨fun _ => by omega, fun _ => by omega⟩, ?_, hanswered⟩
    exact ⟨fun _ => ⟨consumed, htaken, hbytes.symm⟩, fun _ => hroom⟩

/-! ## The requests of a window -/

namespace Window

variable {σ : Type}

/-- The requests made so far, the earliest first. -/
def history (w : Window σ) : List Refill :=
  w.refills.reverse

variable [Source σ]

/-- A window of the given size, on a source that was `source` at first, is in order with `bytes`
consumed. -/
structure Orderly (source : σ) (size : Nat) (bytes : List UInt8) (w : Window σ) : Prop where
  /-- The window holds at most so many bytes. -/
  capacity : w.capacity = size
  /-- The bytes consumed have been counted. -/
  taken : bytes.length = w.taken
  /-- The bytes consumed and those unread are the bytes handed out. -/
  books : bytes ++ w.unread = w.delivered
  /-- As long as the source is open, every request was answered with bytes. -/
  opened : w.exhausted = false → ∀ r ∈ w.history, r.bytes ≠ []
  /-- The source gives these answers to these requests, and has come to its present state by them. -/
  genuine : Source.answers Source.fill source w.requests = (w.history.map Refill.bytes, w.source)
  /-- Each request was made in time. -/
  timely : ∀ (i : Nat) (r : Refill), w.history[i]? = some r → r.Timely size (w.history.take i)

/-- A fresh window is in order. -/
theorem ofSource_orderly (source : σ) (size : Nat) :
    Orderly source size [] (ofSource source size) where
  capacity := rfl
  taken := rfl
  books := rfl
  opened := fun _ _ hmem => absurd hmem List.not_mem_nil
  genuine := rfl
  timely := by
    intro i r hr
    cases hr

/-- A refill is one more request, for the room beside the unread bytes. -/
theorem history_refill {w : Window σ} (hopen : w.exhausted = false) :
    ∃ r : Refill, r.taken = w.taken ∧ r.room = w.capacity - w.unread.length ∧
      (r.bytes, w.refill.source) = Source.fill w.source r.room ∧
      w.refill.unread = w.unread ++ r.bytes ∧ w.refill.exhausted = r.bytes.isEmpty ∧
      w.refill.history = w.history ++ [r] := by
  obtain ⟨room, answer, hroom, hanswer, hrefill⟩ := refill_of_open hopen
  refine ⟨⟨w.taken, room, answer.1⟩, rfl, hroom, ?_, ?_, ?_, ?_⟩ <;> rw [hrefill]
  · exact hanswer
  · exact List.reverse_cons

/-- A refill while at most a backslash is unread keeps a window in order. -/
theorem Orderly.refill {source : σ} {size : Nat} {bytes : List UInt8} {w : Window σ}
    (h : Orderly source size bytes w) (hsize : 2 ≤ size) (hopen : w.exhausted = false)
    (hunread : w.unread = [] ∨ w.unread = [Byte.backslash]) :
    Orderly source size bytes w.refill := by
  obtain ⟨r, htaken, hroom, hanswer, hmore, hended, hhistory⟩ := history_refill hopen
  have hsame : w.refill.capacity = w.capacity ∧ w.refill.taken = w.taken :=
    ⟨(Move.refill hopen hunread).capacity, (Move.refill hopen hunread).taken⟩
  refine ⟨hsame.1.trans h.capacity, h.taken.trans hsame.2.symm, ?_, ?_, ?_, ?_⟩
  · show bytes ++ w.refill.unread = w.refill.history.flatMap Refill.bytes
    rw [hmore, ← List.append_assoc, h.books, hhistory, List.flatMap_append, List.flatMap_singleton]
    rfl
  · intro hstill e he
    rw [hhistory] at he
    rcases List.mem_append.1 he with he | he
    · exact h.opened hopen e he
    · rw [List.mem_singleton.1 he]
      rw [hended] at hstill
      exact List.isEmpty_eq_false_iff.1 hstill
  · have hrequests : w.refill.requests = w.requests ++ [r.room] := by
      show w.refill.history.map Refill.room = w.history.map Refill.room ++ [r.room]
      rw [hhistory, List.map_append]
      rfl
    rw [hrequests, Source.answers_concat, h.genuine, hhistory, List.map_append, ← hanswer]
    rfl
  · intro i e he
    rw [hhistory] at he ⊢
    by_cases hi : i < w.history.length
    · rw [List.getElem?_append_left hi] at he
      rw [List.take_append_of_le_length (Nat.le_of_lt hi)]
      exact h.timely i e he
    · -- Nothing but the request made just now comes after those in the books.
      obtain ⟨hlast, -⟩ := List.getElem?_eq_some_iff.1 he
      rw [List.length_append, List.length_singleton] at hlast
      obtain rfl : i = w.history.length := by omega
      rw [List.getElem?_concat_length] at he
      obtain rfl := Option.some.inj he
      rw [List.take_left]
      refine Refill.timely_of_unread hsize hunread ?_ h.books ?_ (h.opened hopen)
      · rw [hroom, h.capacity]
      · rw [h.taken, htaken]

/-- A move keeps a window in order. -/
theorem Move.orderly {source : σ} {size : Nat} {bytes more : List UInt8} {w w' : Window σ}
    (move : Move w more w') (hsize : 2 ≤ size) (h : Orderly source size bytes w) :
    Orderly source size (bytes ++ more) w' := by
  cases move with
  | refill hopen hunread =>
    rw [List.append_nil]
    exact h.refill hsize hopen hunread
  | take hn =>
    refine ⟨h.capacity, ?_, ?_, h.opened, h.genuine, h.timely⟩
    · rw [List.length_append, h.taken, List.length_take, Nat.min_eq_left hn]
    · rw [List.append_assoc, List.take_append_drop]
      exact h.books

/-- A path keeps a window in order. -/
theorem Path.orderly {source : σ} {size : Nat} {bytes more : List UInt8} {w w' : Window σ}
    (path : Path w more w') (hsize : 2 ≤ size) (h : Orderly source size bytes w) :
    Orderly source size (bytes ++ more) w' := by
  induction path generalizing bytes with
  | stay w =>
    rw [List.append_nil]
    exact h
  | step move _ ih =>
    rw [← List.append_assoc]
    exact ih (move.orderly hsize h)

end Window

/-! ## The requests of a run -/

namespace Scanner

/-- In the reading of a source with the given settings, the source is asked in time and no more. -/
structure Disciplined {σ : Type} [Source σ] (settings : Settings) (source : σ) (d : Draft) :
    Prop where
  /-- Each request is made in time, and the size of the window is the chunk size in use. -/
  timely : ∀ (n i : Nat) (r : Refill),
    (after n (ofSource settings source) d).1.window.history[i]? = some r →
      r.Timely settings.windowSize
        ((after n (ofSource settings source) d).1.window.history.take i)
  /-- The requests in the books are those that were put to the source, with its answers. -/
  genuine : ∀ n,
    Source.answers Source.fill source (after n (ofSource settings source) d).1.window.requests =
      ((after n (ofSource settings source) d).1.window.history.map Refill.bytes,
        (after n (ofSource settings source) d).1.window.source)
  /-- A call refills its window and consumes bytes that are held, and nothing else. -/
  moves : ∀ n, ∃ bytes, (after n (ofSource settings source) d).1.window.Path bytes
    (after (n + 1) (ofSource settings source) d).1.window
  /-- Wherever such moves lead, the bytes consumed and those unread are the bytes handed out. -/
  books : ∀ bytes w, (ofSource settings source).window.Path bytes w →
    bytes ++ w.unread = w.delivered

/-- Every source is asked so. -/
theorem disciplined {σ : Type} [Source σ] (settings : Settings) (source : σ) (d : Draft) :
    Disciplined settings source d := by
  have horderly : ∀ bytes w, (ofSource settings source).window.Path bytes w →
      w.Orderly source settings.windowSize bytes := by
    intro bytes w hpath
    exact hpath.orderly settings.two_le_windowSize
      (Window.ofSource_orderly source settings.windowSize)
  refine ⟨?_, ?_, ?_, fun bytes w hpath => (horderly bytes w hpath).books⟩
  · intro n
    obtain ⟨bytes, hpath⟩ := after_path n (ofSource settings source) d
    exact (horderly bytes _ hpath).timely
  · intro n
    obtain ⟨bytes, hpath⟩ := after_path n (ofSource settings source) d
    exact (horderly bytes _ hpath).genuine
  · intro n
    obtain ⟨bytes, hpath, -, -⟩ := (after_scans n (ofSource settings source) d).agrees
    exact ⟨bytes, hpath⟩

/-- Whatever the settings and the draft, every source is asked in time and no more. So is a supply
without an end up to any moment: cut off after any number of answers, it is asked so, and up to there
the answers in the books are its own. -/
theorem asks_in_time (settings : Settings) (d : Draft) :
    (∀ (σ : Type) [Source σ] (source : σ), Disciplined settings source d) ∧
      ∀ (υ : Type) [Supply υ] (supply : υ) (answers : Nat),
        Disciplined settings (⟨supply, answers⟩ : Limited υ) d ∧
          ∀ n, ((after n (ofSource settings (⟨supply, answers⟩ : Limited υ)) d).1.window.history.map
              Refill.bytes).take answers =
            (Source.answers Supply.fill supply ((after n (ofSource settings
              (⟨supply, answers⟩ : Limited υ)) d).1.window.requests.take answers)).1 := by
  refine ⟨fun σ _ source => disciplined settings source d, ?_⟩
  intro υ _ supply answers
  have hsource := disciplined settings (⟨supply, answers⟩ : Limited υ) d
  refine ⟨hsource, fun n => ?_⟩
  have hgenuine := hsource.genuine n
  generalize (after n (ofSource settings (⟨supply, answers⟩ : Limited υ)) d).1.window = w at *
  have hbytes : (Source.answers Source.fill (⟨supply, answers⟩ : Limited υ) w.requests).1 =
      w.history.map Refill.bytes := by rw [hgenuine]
  rw [← hbytes, Source.take_answers]
  exact Limited.answers_eq (List.length_take_le answers _)

end Scanner

end Listfile
