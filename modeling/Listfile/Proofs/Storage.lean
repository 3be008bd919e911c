import Listfile.Proofs.Window

/-!
# Windows on cells

A window is kept in a fixed number of cells. The unread bytes are the cells between two places. They
are moved to the front before a source is offered the cells behind them (`Storage`). Every access is
checked, and so is every difference: it is refused if there is no such cell, if the ends of a range
are no places or in the wrong order, or if the difference would be negative (`Overrun`).

The books of a window tell which bytes have been consumed before which request. Carried out on the
cells, none of this is ever refused, and the cells show the window: `Shows` is kept by every move
(`Window.Move.shows`) and so along every path (`Window.Path.shows`). The scanner can then read every
byte, or all bytes, that are unread (`Serves`).

A source writes into the cells that it is offered. `Filler` says how it does so: the number that it
gives counts the bytes at the front that are its answer, and it may do with the cells behind them what
it likes.
-/

namespace Listfile

/-! ## Checked access -/

/-- An access that cannot be carried out. -/
inductive Overrun where
  /-- There is no such cell. -/
  | index
  /-- There are no such cells, or their ends are in the wrong order. -/
  | range
  /-- A number was to be taken off a smaller one. -/
  | negative
  /-- More bytes were to be consumed than are held. -/
  | unheld
deriving DecidableEq, Repr

namespace Cells

/-- What is left of `a` without `b`. -/
def difference (a b : Nat) : Except Overrun Nat :=
  if b ≤ a then .ok (a - b) else .error .negative

/-- The cell with the given index. -/
def get (cells : List UInt8) (i : Nat) : Except Overrun UInt8 :=
  match cells[i]? with
  | some b => .ok b
  | none => .error .index

/-- The cells from one place up to another. -/
def slice (cells : List UInt8) (start stop : Nat) : Except Overrun (List UInt8) :=
  if start ≤ stop ∧ stop ≤ cells.length then .ok ((cells.take stop).drop start) else .error .range

/-- Put bytes into the cells from one place on. -/
def store (cells : List UInt8) (start : Nat) (bytes : List UInt8) : Except Overrun (List UInt8) :=
  if start + bytes.length ≤ cells.length then
    .ok (cells.take start ++ bytes ++ cells.drop (start + bytes.length))
  else .error .range

theorem difference_ok {a b : Nat} (h : b ≤ a) : difference a b = .ok (a - b) :=
  if_pos h

theorem get_ok {cells : List UInt8} {i : Nat} {b : UInt8} (h : cells[i]? = some b) :
    get cells i = .ok b := by
  simp only [get, h]

theorem slice_ok {cells : List UInt8} {start stop : Nat} (h : start ≤ stop)
    (hstop : stop ≤ cells.length) : slice cells start stop = .ok ((cells.take stop).drop start) :=
  if_pos ⟨h, hstop⟩

theorem store_ok {cells bytes : List UInt8} {start : Nat}
    (h : start + bytes.length ≤ cells.length) : store cells start bytes =
      .ok (cells.take start ++ bytes ++ cells.drop (start + bytes.length)) :=
  if_pos h

end Cells

/-! ## Sources that write into cells -/

/-- What a source leaves behind. -/
structure Filled (τ : Type) where
  /-- The number of bytes written. -/
  count : Nat
  /-- The cells afterwards. -/
  cells : List UInt8
  /-- The source afterwards. -/
  state : τ

/-- Types of states that write the bytes of a source into the cells they are offered. -/
class Filler (τ σ : Type) [Source σ] where
  /-- The state that nothing has been asked of. -/
  start : σ → τ
  /-- Write into cells. -/
  fillInto : τ → List UInt8 → Except Overrun (Filled τ)
  /-- The state stands for the one of the source. -/
  Is : τ → σ → Prop
  /-- At the start it does. -/
  start_is : ∀ s, Is (start s) s
  /-- Writing is not refused. The bytes written are those that the source hands out for as much room
  as there are cells, and the number of cells stays what it is. -/
  fillInto_is : ∀ {t s}, Is t s → ∀ cells, ∃ r, fillInto t cells = .ok r ∧
    r.count = (Source.fill s cells.length).1.length ∧ r.cells.length = cells.length ∧
    r.cells.take r.count = (Source.fill s cells.length).1 ∧
    Is r.state (Source.fill s cells.length).2

/-! ## Storage -/

/-- A window kept in cells. -/
structure Storage (τ : Type) where
  /-- The source behind it. -/
  source : τ
  /-- The cells. -/
  cells : List UInt8
  /-- The place of the first unread byte. -/
  start : Nat
  /-- The place behind the last unread byte. -/
  stop : Nat
  /-- Whether the source has come to its end. -/
  exhausted : Bool
  /-- The number of bytes consumed so far. -/
  taken : Nat

namespace Storage

variable {τ : Type}

/-- The number of unread bytes. -/
def held (st : Storage τ) : Except Overrun Nat :=
  Cells.difference st.stop st.start

/-- The unread bytes. -/
def chunk (st : Storage τ) : Except Overrun (List UInt8) :=
  Cells.slice st.cells st.start st.stop

/-- The unread byte with the given index. -/
def peek (st : Storage τ) (i : Nat) : Except Overrun UInt8 :=
  Cells.get st.cells (st.start + i)

/-- Consume the first `n` unread bytes. -/
def consume (st : Storage τ) (n : Nat) : Except Overrun (Storage τ) :=
  if st.start + n ≤ st.stop then
    .ok { st with start := st.start + n, taken := st.taken + n }
  else .error .unheld

/-- Consume until `n` bytes have been consumed in all. -/
def consumeTo (st : Storage τ) (n : Nat) : Except Overrun (Storage τ) := do
  st.consume (← Cells.difference n st.taken)

/-- Move the unread bytes to the front. -/
def compact (st : Storage τ) : Except Overrun (Storage τ) :=
  if 0 < st.start then do
    let unread ← Cells.slice st.cells st.start st.stop
    let cells ← Cells.store st.cells 0 unread
    let stop ← Cells.difference st.stop st.start
    .ok { st with cells, start := 0, stop }
  else .ok st

variable {σ : Type} [Source σ] [Filler τ σ]

variable (σ) in
/-- Offer the cells behind the unread bytes to the source. That it has not written more bytes than fit
is taken on trust. -/
def refill (st : Storage τ) : Except Overrun (Storage τ) := do
  let st ← st.compact
  let offered ← Cells.slice st.cells st.stop st.cells.length
  let answer ← Filler.fillInto σ st.source offered
  let cells ← Cells.store st.cells st.stop answer.cells
  .ok { st with
    source := answer.state
    cells
    stop := st.stop + answer.count
    exhausted := answer.count == 0 }

/-- Cells that nothing has been read into. -/
def ofSource (τ : Type) [Filler τ σ] (source : σ) (capacity : Nat) : Storage τ :=
  ⟨Filler.start source, List.replicate capacity 0, 0, 0, false, 0⟩

/-- The cells after the given requests, the latest first, each made when as many bytes had been
consumed as the books say. -/
def ofRefills (τ : Type) [Filler τ σ] (source : σ) (capacity : Nat) :
    List Refill → Except Overrun (Storage τ)
  | [] => .ok (ofSource τ source capacity)
  | r :: earlier => do
    let st ← ofRefills τ source capacity earlier
    let st ← st.consumeTo r.taken
    st.refill σ

/-- The cells of a window that has come from the given source: all its requests are made, and as many
bytes are consumed, as its books say. -/
def ofWindow (τ : Type) [Filler τ σ] (source : σ) (w : Window σ) : Except Overrun (Storage τ) := do
  let st ← ofRefills τ source w.capacity w.refills
  st.consumeTo w.taken

/-! ## Cells that show a window -/

/-- The cells between the two places are the unread bytes of the window. -/
structure Shows (st : Storage τ) (w : Window σ) : Prop where
  /-- The source is that of the window. -/
  source : Filler.Is st.source w.source
  /-- There are as many cells as the window may hold bytes. -/
  size : st.cells.length = w.capacity
  /-- The places are in order. -/
  start_le : st.start ≤ st.stop
  /-- They are places between cells. -/
  stop_le : st.stop ≤ st.cells.length
  /-- The unread bytes are between them. -/
  unread : (st.cells.take st.stop).drop st.start = w.unread
  /-- The source has come to its end for both or for neither. -/
  exhausted : st.exhausted = w.exhausted
  /-- As many bytes have been consumed. -/
  taken : st.taken = w.taken

/-- The places are as far apart as there are unread bytes. -/
theorem Shows.length {st : Storage τ} {w : Window σ} (h : st.Shows w) :
    st.stop = st.start + w.unread.length := by
  have hlen := congrArg List.length h.unread
  rw [List.length_drop, List.length_take, Nat.min_eq_left h.stop_le] at hlen
  have hle := h.start_le
  omega

/-- Fresh cells show a fresh window. -/
theorem ofSource_shows (source : σ) (capacity : Nat) :
    (ofSource τ source capacity).Shows (Window.ofSource source capacity) where
  source := Filler.start_is source
  size := List.length_replicate
  start_le := Nat.le_refl 0
  stop_le := Nat.zero_le _
  unread := rfl
  exhausted := rfl
  taken := rfl

/-- Bytes that are held can be consumed. -/
theorem Shows.consume {st : Storage τ} {w : Window σ} {n : Nat} (h : st.Shows w)
    (hn : n ≤ w.unread.length) :
    ∃ st', st.consume n = .ok st' ∧
      st'.Shows { w with unread := w.unread.drop n, taken := w.taken + n } := by
  have hle : st.start + n ≤ st.stop := by
    rw [h.length]
    omega
  refine ⟨_, if_pos hle, h.source, h.size, hle, h.stop_le, ?_, h.exhausted, ?_⟩
  · simp only [← h.unread, List.drop_drop]
  · simp only [h.taken]

/-- The unread bytes can be moved to the front. -/
theorem Shows.compact {st : Storage τ} {w : Window σ} (h : st.Shows w) :
    ∃ st', st.compact = .ok st' ∧ st'.Shows w ∧ st'.start = 0 := by
  by_cases hstart : 0 < st.start
  · have hlen := h.length
    have hfits : 0 + w.unread.length ≤ st.cells.length := by
      have hle := h.stop_le
      omega
    have hslice := Cells.slice_ok h.start_le h.stop_le
    rw [h.unread] at hslice
    refine ⟨_, (if_pos hstart).trans (bind_eq_ok.2 ⟨_, hslice, bind_eq_ok.2 ⟨_,
      Cells.store_ok hfits, bind_eq_ok.2 ⟨_, Cells.difference_ok h.start_le, rfl⟩⟩⟩), ?_, rfl⟩
    have hstop : st.stop - st.start = w.unread.length := by omega
    rw [hstop, List.take_zero, List.nil_append, Nat.zero_add]
    refine ⟨h.source, ?_, Nat.zero_le _, ?_, ?_, h.exhausted, h.taken⟩
    · simp only [List.length_append, List.length_drop, ← h.size]
      omega
    · simp only [List.length_append]
      omega
    · simp only [List.take_left, List.drop_zero]
  · exact ⟨st, if_neg hstart, h, Nat.eq_zero_of_not_pos hstart⟩

/-- The source can be asked, and then the cells show the window with its answer. -/
theorem Shows.refill {st : Storage τ} {w : Window σ} (h : st.Shows w)
    (hopen : w.exhausted = false) : ∃ st', st.refill σ = .ok st' ∧ st'.Shows w.refill := by
  obtain ⟨st₁, hcompact, h₁, hstart⟩ := h.compact
  have hstop : st₁.stop = w.unread.length := by
    rw [h₁.length, hstart, Nat.zero_add]
  have hunread : st₁.cells.take st₁.stop = w.unread := by
    rw [← h₁.unread, hstart, List.drop_zero]
  have hoffered := Cells.slice_ok h₁.stop_le (Nat.le_refl st₁.cells.length)
  rw [List.take_length] at hoffered
  -- The cells offered are the room that the window has.
  have hroom : (st₁.cells.drop st₁.stop).length = w.capacity - w.unread.length := by
    rw [List.length_drop, h₁.size, hstop]
  obtain ⟨room, answer, hroom', hanswer, hrefill⟩ := Window.refill_of_open hopen
  obtain ⟨r, hfill, hcount, hlength, htake, his⟩ :=
    Filler.fillInto_is h₁.source (st₁.cells.drop st₁.stop)
  rw [hroom, ← hroom', ← hanswer] at hcount htake his
  have hend : st₁.stop + r.cells.length = st₁.cells.length := by
    rw [hlength, List.length_drop]
    have hle := h₁.stop_le
    omega
  have hcells : st₁.cells.take st₁.stop ++ r.cells ++
      st₁.cells.drop (st₁.stop + r.cells.length) = w.unread ++ r.cells := by
    rw [hend, List.drop_length, List.append_nil, hunread]
  have hle : r.count ≤ r.cells.length := by
    rw [hcount, ← htake]
    exact List.length_take_le' _ _
  refine ⟨_, bind_eq_ok.2 ⟨_, hcompact, bind_eq_ok.2 ⟨_, hoffered, bind_eq_ok.2 ⟨_, hfill,
    bind_eq_ok.2 ⟨_, Cells.store_ok (Nat.le_of_eq hend), rfl⟩⟩⟩⟩, ?_⟩
  rw [hcells, hrefill]
  refine ⟨his, ?_, ?_, ?_, ?_, ?_, h₁.taken⟩
  · rw [List.length_append, ← hstop, hend, h₁.size]
  · rw [hstart]
    exact Nat.zero_le _
  · rw [List.length_append, hstop]
    exact Nat.add_le_add_left hle _
  · rw [hstart, List.drop_zero, hstop, List.take_length_add_append, htake]
  · cases hbytes : answer.1 with
    | nil =>
      rw [hbytes] at hcount
      rw [hcount]
      rfl
    | cons b more =>
      rw [hbytes] at hcount
      rw [hcount]
      rfl

/-! ## Carrying out the books -/

/-- Consuming as far as the cells have come is consuming nothing. -/
theorem Shows.consumeTo {st : Storage τ} {w : Window σ} (h : st.Shows w) :
    st.consumeTo w.taken = .ok st := by
  refine bind_eq_ok.2 ⟨_, Cells.difference_ok (Nat.le_of_eq h.taken), ?_⟩
  rw [← h.taken, Nat.sub_self]
  exact if_pos h.start_le

/-- Consuming further is consuming more. -/
theorem consumeTo_add {st st₁ st₂ : Storage τ} {n m : Nat} (h : st.consumeTo n = .ok st₁)
    (h' : st₁.consume m = .ok st₂) : st.consumeTo (n + m) = .ok st₂ := by
  obtain ⟨k, hk, hfirst⟩ := bind_eq_ok.1 h
  unfold Cells.difference at hk
  unfold consume at hfirst h'
  split at hk
  · rename_i hle
    cases hk
    split at hfirst
    · cases hfirst
      split at h'
      · rename_i hfits
        cases h'
        refine bind_eq_ok.2 ⟨_, Cells.difference_ok (Nat.le_add_right_of_le hle), ?_⟩
        have hsum : n + m - st.taken = n - st.taken + m := by omega
        rw [hsum, consume, if_pos (by rw [← Nat.add_assoc]; exact hfits), Nat.add_assoc,
          Nat.add_assoc]
      · cases h'
    · cases hfirst
  · cases hk

end Storage

namespace Window

variable {σ τ : Type} [Source σ] [Filler τ σ]

/-- A move is carried out on the cells that show the window, and then they show the window after
it. -/
theorem Move.shows {source : σ} {w w' : Window σ} {bytes : List UInt8} {st : Storage τ}
    (move : Move w bytes w') (hcells : Storage.ofWindow τ source w = .ok st) (h : st.Shows w) :
    ∃ st', Storage.ofWindow τ source w' = .ok st' ∧ st'.Shows w' := by
  obtain ⟨st₀, hrefills, htaken⟩ := bind_eq_ok.1 hcells
  cases move with
  | refill hopen _ =>
    -- One more request is in the books, made after all that has been consumed.
    obtain ⟨st', hrefill, hshows⟩ := h.refill hopen
    have hsame := hshows.consumeTo
    obtain ⟨room, answer, -, -, hbooks⟩ := refill_of_open hopen
    refine ⟨st', ?_, hshows⟩
    rw [hbooks] at hsame ⊢
    exact bind_eq_ok.2 ⟨st', bind_eq_ok.2 ⟨st₀, hrefills, bind_eq_ok.2 ⟨st, htaken, hrefill⟩⟩, hsame⟩
  | take hn =>
    obtain ⟨st', hconsume, hshows⟩ := h.consume hn
    exact ⟨st', bind_eq_ok.2 ⟨st₀, hrefills, Storage.consumeTo_add htaken hconsume⟩, hshows⟩

/-- On a path from a fresh window, the books can be carried out on cells, and these show the
window. -/
theorem Path.shows (τ : Type) [Filler τ σ] {source : σ} {capacity : Nat} {bytes : List UInt8}
    {w : Window σ} (path : Path (ofSource source capacity) bytes w) :
    ∃ st : Storage τ, Storage.ofWindow τ source w = .ok st ∧ st.Shows w := by
  have hfresh := Storage.ofSource_shows (τ := τ) source capacity
  have hstart : Storage.ofWindow τ source (ofSource source capacity) =
      .ok (Storage.ofSource τ source capacity) :=
    bind_eq_ok.2 ⟨_, rfl, hfresh.consumeTo⟩
  generalize ofSource source capacity = start at path hfresh hstart
  generalize Storage.ofSource τ source capacity = st at hfresh hstart
  induction path generalizing st with
  | stay w => exact ⟨st, hstart, hfresh⟩
  | step move _ ih =>
    obtain ⟨st₁, hcells, hshows⟩ := move.shows hstart hfresh
    exact ih st₁ hshows hcells

end Window

/-! ## What cells that show a window are good for -/

namespace Storage

variable {σ τ : Type} [Source σ] [Filler τ σ]

/-- Whatever a scanner can ask of the window is answered, and the answer is that of the window. -/
structure Serves (st : Storage τ) (w : Window σ) : Prop where
  /-- The places are in order and between cells, of which there are as many as the window may hold
  bytes. -/
  within : st.start ≤ st.stop ∧ st.stop ≤ st.cells.length ∧ st.cells.length = w.capacity
  /-- The unread bytes can be counted. -/
  held : st.held = .ok w.unread.length
  /-- They can be read together. -/
  chunk : st.chunk = .ok w.unread
  /-- Each of them can be read. -/
  peek : ∀ i b, w.unread[i]? = some b → st.peek i = .ok b
  /-- So many of them as there are can be consumed. -/
  consume : ∀ n ≤ w.unread.length, ∃ st', st.consume n = .ok st'
  /-- As long as it is open, the source can be asked. -/
  refill : w.exhausted = false → ∃ st', st.refill σ = .ok st'

/-- Cells that show a window serve for it. -/
theorem Shows.serves {st : Storage τ} {w : Window σ} (h : st.Shows w) : st.Serves w where
  within := ⟨h.start_le, h.stop_le, h.size⟩
  held := by
    have hlen := h.length
    rw [Storage.held, Cells.difference_ok h.start_le, hlen, Nat.add_sub_cancel_left]
  chunk := by rw [Storage.chunk, Cells.slice_ok h.start_le h.stop_le, h.unread]
  peek := by
    intro i b hb
    apply Cells.get_ok
    rw [← h.unread, List.getElem?_drop, List.getElem?_take] at hb
    split at hb
    · exact hb
    · cases hb
  consume := by
    intro n hn
    obtain ⟨st', hconsume, -⟩ := h.consume hn
    exact ⟨st', hconsume⟩
  refill := by
    intro hopen
    obtain ⟨st', hrefill, -⟩ := h.refill hopen
    exact ⟨st', hrefill⟩

end Storage

end Listfile
