import Listfile.Proofs.Normalized
import Listfile.Proofs.Storage
import Listfile.Source.Memory

/-!
# Sources that fill cells

How bytes in memory and normalised streams get into the cells that they are offered, with every access
checked. Both are never refused, whatever the cells, and hand out what they hand out as sources
(`Tape.fillInto_eq`, `Normalized.fillInto_eq`).

* Bytes in memory are copied from the place up to which they have been handed out (`Tape`).
* A normalised stream passes a chunk on in steps: it looks for the next carriage return among the
  bytes for which there is room, and copies the bytes before it in one go, or takes it up
  (`Transfer.step`). What one step writes and uses up is the beginning of what `collapse` does with
  the chunk, so nothing of this is changed by a step, and all of it has been done in the end
  (`Transfer.exists_step`, `Transfer.run_eq`).
-/

namespace Listfile

/-! ## Answers in cells -/

/-- An answer written at the front of the cells. -/
def Filled.ofAnswer {τ : Type} (cells : List UInt8) (answer : List UInt8 × τ) : Filled τ :=
  ⟨answer.1.length, answer.1 ++ cells.drop answer.1.length, answer.2⟩

/-- An answer that fits is all that has to be written. -/
theorem Filled.ofAnswer_spec {τ : Type} {cells : List UInt8} (answer : List UInt8 × τ)
    (h : answer.1.length ≤ cells.length) :
    (ofAnswer cells answer).cells.length = cells.length ∧
      (ofAnswer cells answer).cells.take (ofAnswer cells answer).count = answer.1 := by
  refine ⟨?_, List.take_left⟩
  simp only [ofAnswer, List.length_append, List.length_drop]
  omega

/-- The filler that writes the answers of a source, each as a whole. -/
@[reducible] def Filler.ofSource (σ : Type) [Source σ] : Filler σ σ where
  start := id
  fillInto s cells := .ok (Filled.ofAnswer cells (Source.fill s cells.length))
  Is := Eq
  start_is _ := rfl
  fillInto_is := by
    rintro s _ rfl cells
    obtain ⟨hlength, htake⟩ := Filled.ofAnswer_spec _ (Source.length_fill_le s cells.length)
    exact ⟨_, rfl, rfl, hlength, htake, rfl⟩

/-! ## Bytes in memory -/

/-- Bytes in memory, with the place up to which they have been handed out. -/
structure Tape where
  /-- All bytes. -/
  data : List UInt8
  /-- The number of bytes handed out. -/
  place : Nat

namespace Tape

/-- Copy as many of the bytes left as there are cells. -/
def fillInto (t : Tape) (cells : List UInt8) : Except Overrun (Filled Tape) := do
  let left ← Cells.difference t.data.length t.place
  let count := min left cells.length
  let bytes ← Cells.slice t.data t.place (t.place + count)
  let cells ← Cells.store cells 0 bytes
  .ok ⟨count, cells, { t with place := t.place + count }⟩

/-- The tape is at a place of its data, and the memory holds what comes after it. -/
structure Is (t : Tape) (m : Memory) : Prop where
  /-- The place is one of the data. -/
  place_le : t.place ≤ t.data.length
  /-- The memory holds the rest. -/
  rest : t.data.drop t.place = m.rest

/-- Copying is not refused, and copies what the memory hands out. -/
theorem fillInto_eq {t : Tape} {m : Memory} (h : t.Is m) (cells : List UInt8) :
    ∃ t', t.fillInto cells = .ok ⟨(m.fill cells.length).1.length,
        (m.fill cells.length).1 ++ cells.drop (m.fill cells.length).1.length, t'⟩ ∧
      t'.Is (m.fill cells.length).2 := by
  have hlen := congrArg List.length h.rest
  rw [List.length_drop] at hlen
  have hle := h.place_le
  have hcount : min (t.data.length - t.place) cells.length =
      (m.fill cells.length).1.length := by
    rw [Memory.fill, List.length_take, hlen, Nat.min_comm]
  have hfit := m.length_fill_le cells.length
  have hbytes : (t.data.take (t.place + (m.fill cells.length).1.length)).drop t.place =
      (m.fill cells.length).1 := by
    rw [List.drop_take, Nat.add_sub_cancel_left, h.rest, ← hcount, hlen, Memory.fill,
      Nat.min_comm, ← List.take_take, List.take_length]
  have hplace : t.place + (m.fill cells.length).1.length ≤ t.data.length := by omega
  refine ⟨⟨t.data, t.place + (m.fill cells.length).1.length⟩, ?_, hplace, ?_⟩
  · unfold fillInto
    refine bind_eq_ok.2 ⟨_, Cells.difference_ok hle, ?_⟩
    simp only [hcount]
    refine bind_eq_ok.2 ⟨_, Cells.slice_ok (Nat.le_add_right _ _) hplace, ?_⟩
    rw [hbytes]
    refine bind_eq_ok.2 ⟨_, Cells.store_ok (by omega), ?_⟩
    rw [List.take_zero, List.nil_append, Nat.zero_add]
  · rw [← List.drop_drop, h.rest, ← hcount, hlen, Memory.fill]
    rcases Nat.le_total m.rest.length cells.length with hall | hpart
    · rw [Nat.min_eq_left hall, List.drop_length, List.drop_eq_nil_of_le hall]
    · rw [Nat.min_eq_right hpart]

-- The checks are real: from a place behind the data there is nothing to copy.
example : (⟨[0x61], 2⟩ : Tape).fillInto [0, 0] = .error .negative := rfl

instance : Filler Tape Memory where
  start m := ⟨m.rest, 0⟩
  fillInto := fillInto
  Is := Is
  start_is m := ⟨Nat.zero_le _, rfl⟩
  fillInto_is := by
    intro t m h cells
    obtain ⟨t', hok, his⟩ := fillInto_eq h cells
    obtain ⟨hlength, htake⟩ :=
      Filled.ofAnswer_spec (m.fill cells.length) (m.length_fill_le cells.length)
    exact ⟨_, hok, rfl, hlength, htake, his⟩

end Tape

/-! ## Passing on a chunk -/

/-- The state of passing a chunk on. -/
structure Transfer where
  /-- The cells. -/
  cells : List UInt8
  /-- The number of bytes written into them. -/
  written : Nat
  /-- The number of bytes of the chunk that are used up. -/
  used : Nat
  /-- Whether a carriage return is held back. -/
  held : Bool

namespace Transfer

/-- Bytes of the chunk and cells are left. -/
def Active (chunk : List UInt8) (t : Transfer) : Prop :=
  t.used < chunk.length ∧ t.written < t.cells.length

instance (chunk : List UInt8) (t : Transfer) : Decidable (t.Active chunk) :=
  inferInstanceAs (Decidable (_ ∧ _))

/-- Copy the given bytes of the chunk up to the first carriage return, or take it up if it comes
first. -/
def copy (t : Transfer) (bytes : List UInt8) : Except Overrun Transfer :=
  match bytes.findIdx? (· == Byte.carriageReturn) with
  | some 0 => .ok { t with used := t.used + 1, held := true }
  | some i => do
    let run ← Cells.slice bytes 0 i
    let cells ← Cells.store t.cells t.written run
    .ok ⟨cells, t.written + i, t.used + i, false⟩
  | none => do
    let cells ← Cells.store t.cells t.written bytes
    .ok ⟨cells, t.written + bytes.length, t.used + bytes.length, false⟩

/-- One step. If a carriage return is held back, the next byte decides about it. If not, bytes are
copied for which there is room. -/
def step (chunk : List UInt8) (t : Transfer) : Except Overrun Transfer :=
  if t.held then do
    let b ← Cells.get chunk t.used
    if b = Byte.newline then do
      let cells ← Cells.store t.cells t.written [Byte.newline]
      .ok ⟨cells, t.written + 1, t.used + 1, false⟩
    else do
      let cells ← Cells.store t.cells t.written [Byte.carriageReturn]
      .ok ⟨cells, t.written + 1, t.used, false⟩
  else do
    let room ← Cells.difference t.cells.length t.written
    let left ← Cells.slice chunk t.used chunk.length
    t.copy (← Cells.slice left 0 (min left.length room))

/-- The transfer after some bytes have been written and some used up. -/
def advance (t : Transfer) (bytes : List UInt8) (used : Nat) (held : Bool) : Transfer :=
  ⟨t.cells.take t.written ++ bytes ++ t.cells.drop (t.written + bytes.length),
    t.written + bytes.length, t.used + used, held⟩

/-- What is still to be done with the chunk. -/
def rest (chunk : List UInt8) (t : Transfer) : Collapsed :=
  collapse t.held (t.cells.length - t.written) (chunk.drop t.used)

/-- The transfer after all of it has been done. -/
def result (chunk : List UInt8) (t : Transfer) : Transfer :=
  t.advance (t.rest chunk).written (t.rest chunk).used (t.rest chunk).held

/-- Without bytes to write, only the chunk is used up. -/
theorem advance_nil (t : Transfer) (used : Nat) (held : Bool) :
    t.advance [] used held = { t with used := t.used + used, held } := by
  simp only [advance, List.append_nil, List.length_nil, Nat.add_zero, List.take_append_drop]

/-- Writing is not refused if there is room. -/
theorem store_advance {t : Transfer} {bytes : List UInt8} (used : Nat) (held : Bool)
    (h : t.written + bytes.length ≤ t.cells.length) :
    Cells.store t.cells t.written bytes = .ok (t.advance bytes used held).cells :=
  Cells.store_ok h

/-- The number of cells stays what it is. -/
theorem length_advance {t : Transfer} {bytes : List UInt8} (used : Nat) (held : Bool)
    (h : t.written + bytes.length ≤ t.cells.length) :
    (t.advance bytes used held).cells.length = t.cells.length := by
  simp only [advance, List.length_append, List.length_take, List.length_drop]
  omega

/-- Advancing twice is advancing by both. -/
theorem advance_advance {t : Transfer} {bytes : List UInt8} (more : List UInt8) (used used' : Nat)
    (held held' : Bool) (h : t.written + bytes.length ≤ t.cells.length) :
    (t.advance bytes used held).advance more used' held' =
      t.advance (bytes ++ more) (used + used') held' := by
  have hfront : t.written + bytes.length = (t.cells.take t.written ++ bytes).length := by
    rw [List.length_append, List.length_take, Nat.min_eq_left (by omega)]
  have htake : (t.advance bytes used held).cells.take (t.written + bytes.length) =
      t.cells.take t.written ++ bytes := by
    rw [hfront]
    exact List.take_left
  have hdrop : (t.advance bytes used held).cells.drop (t.written + bytes.length) =
      t.cells.drop (t.written + bytes.length) :=
    (congrArg (fun n => (t.advance bytes used held).cells.drop n) hfront).trans List.drop_left
  rw [advance]
  change (⟨(t.advance bytes used held).cells.take (t.written + bytes.length) ++ more ++
    (t.advance bytes used held).cells.drop (t.written + bytes.length + more.length), _, _, _⟩ :
      Transfer) = _
  rw [htake, ← List.drop_drop, hdrop, List.drop_drop]
  simp only [advance, List.length_append, List.append_assoc, Nat.add_assoc]

end Transfer

/-- Bytes without a carriage return are passed on as they are. -/
theorem collapse_append_of_ne {run : List UInt8} (h : ∀ b ∈ run, b ≠ Byte.carriageReturn)
    (room : Nat) (rest : List UInt8) :
    collapse false (run.length + room) (run ++ rest) =
      ⟨run ++ (collapse false room rest).written, run.length + (collapse false room rest).used,
        (collapse false room rest).held⟩ := by
  induction run with
  | nil => simp only [List.length_nil, Nat.zero_add, List.nil_append]
  | cons b run ih =>
    have hb : b ≠ Byte.carriageReturn := h b List.mem_cons_self
    have hsum : (b :: run).length + room = run.length + room + 1 := by
      rw [List.length_cons]
      omega
    rw [hsum, List.cons_append, collapse, if_neg Bool.false_ne_true, if_neg hb,
      ih fun c hc => h c (List.mem_cons_of_mem b hc)]
    simp only [Collapsed.use, Collapsed.write, List.cons_append, List.length_cons]
    congr 1
    omega

namespace Transfer

/-- If what one step does is the beginning of what is to be done, then the result is the same after
it. -/
theorem result_advance {chunk bytes : List UInt8} {t : Transfer} {used : Nat} {held : Bool}
    (h : t.written + bytes.length ≤ t.cells.length)
    (hrest : t.rest chunk =
      ⟨bytes ++ ((t.advance bytes used held).rest chunk).written,
        used + ((t.advance bytes used held).rest chunk).used,
        ((t.advance bytes used held).rest chunk).held⟩) :
    (t.advance bytes used held).result chunk = t.result chunk := by
  rw [result, result, advance_advance _ _ _ _ _ h, hrest]

/-- What is to be done after a step. -/
theorem rest_advance {t : Transfer} {bytes : List UInt8} (chunk : List UInt8) (used : Nat)
    (held : Bool) (h : t.written + bytes.length ≤ t.cells.length) :
    (t.advance bytes used held).rest chunk =
      collapse held (t.cells.length - t.written - bytes.length) ((chunk.drop t.used).drop used) := by
  rw [rest, length_advance used held h]
  simp only [advance, List.drop_drop, Nat.sub_sub]

/-- Copying a run without carriage returns is the beginning of what is to be done. -/
theorem result_copy {chunk run more : List UInt8} {t : Transfer} (hheld : t.held = false)
    (h : t.written + run.length ≤ t.cells.length) (hchunk : chunk.drop t.used = run ++ more)
    (hrun : ∀ b ∈ run, b ≠ Byte.carriageReturn) :
    (t.advance run run.length false).result chunk = t.result chunk := by
  apply result_advance h
  have hroom : t.cells.length - t.written =
      run.length + (t.cells.length - t.written - run.length) := by omega
  rw [rest_advance chunk _ _ h, rest, hheld, hchunk, List.drop_left, hroom,
    collapse_append_of_ne hrun, Nat.add_sub_cancel_left]

/-- What a step does. -/
structure Steps (chunk : List UInt8) (t t' : Transfer) : Prop where
  /-- It is not refused. -/
  ok : t.step chunk = .ok t'
  /-- It leaves less to be done. -/
  less : 2 * (chunk.length - t'.used) + t'.held.toNat < 2 * (chunk.length - t.used) + t.held.toNat
  /-- It does not change the result. -/
  same : t'.result chunk = t.result chunk

/-- A step that decides about the carriage return held back. -/
theorem exists_step_of_held {chunk : List UInt8} {t : Transfer} (h : t.Active chunk)
    (hheld : t.held = true) : ∃ t', t.Steps chunk t' := by
  obtain ⟨hused, hwritten⟩ := h
  obtain ⟨b, later, hchunk⟩ : ∃ b later, chunk.drop t.used = b :: later :=
    ⟨_, _, List.drop_eq_getElem_cons hused⟩
  have hget : chunk[t.used]? = some b := by
    rw [← List.head?_drop, hchunk]
    rfl
  obtain ⟨room, hroom⟩ : ∃ room, t.cells.length - t.written = room + 1 :=
    ⟨t.cells.length - t.written - 1, by omega⟩
  have hone : ∀ c : UInt8, t.written + [c].length ≤ t.cells.length := fun _ => hwritten
  by_cases hb : b = Byte.newline
  · refine ⟨t.advance [Byte.newline] 1 false, ?_, ?_, result_advance hwritten ?_⟩
    · rw [step, if_pos hheld]
      refine bind_eq_ok.2 ⟨b, Cells.get_ok hget, ?_⟩
      rw [if_pos hb]
      exact bind_eq_ok.2 ⟨_, store_advance 1 false hwritten, rfl⟩
    · simp only [advance, hheld, Bool.toNat_true, Bool.toNat_false]
      omega
    · rw [rest_advance chunk _ _ (hone _), rest, hheld, hroom, hchunk, collapse, if_pos rfl,
        if_pos hb]
      simp only [Collapsed.use, Collapsed.write, List.length_singleton, Nat.add_sub_cancel,
        List.drop_one, List.tail_cons, List.singleton_append, Nat.add_comm]
  · refine ⟨t.advance [Byte.carriageReturn] 0 false, ?_, ?_, result_advance hwritten ?_⟩
    · rw [step, if_pos hheld]
      refine bind_eq_ok.2 ⟨b, Cells.get_ok hget, ?_⟩
      rw [if_neg hb]
      exact bind_eq_ok.2 ⟨_, store_advance 0 false hwritten, rfl⟩
    · simp only [advance, hheld, Bool.toNat_true, Bool.toNat_false]
      omega
    · rw [rest_advance chunk _ _ (hone _), rest, hheld, hroom, hchunk, collapse, if_pos rfl,
        if_neg hb]
      simp only [Collapsed.write, List.length_singleton, Nat.add_sub_cancel, List.drop_zero,
        List.singleton_append, Nat.zero_add]

/-- The bytes of the chunk for which there is room. -/
def visible (chunk : List UInt8) (t : Transfer) : List UInt8 :=
  (chunk.drop t.used).take (min (chunk.drop t.used).length (t.cells.length - t.written))

/-- If no carriage return is held back, these bytes are copied. -/
theorem step_of_free {chunk : List UInt8} {t : Transfer} (h : t.Active chunk)
    (hheld : t.held = false) : t.step chunk = t.copy (t.visible chunk) := by
  obtain ⟨hused, hwritten⟩ := h
  rw [step, hheld, if_neg Bool.false_ne_true, Cells.difference_ok (Nat.le_of_lt hwritten),
    Cells.slice_ok (Nat.le_of_lt hused) (Nat.le_refl _), List.take_length]
  change (do t.copy (← Cells.slice (chunk.drop t.used) 0 _)) = _
  rw [Cells.slice_ok (Nat.zero_le _) (Nat.min_le_left _ _)]
  rfl

/-- A step that copies a run of bytes without carriage returns. -/
theorem steps_of_run {chunk run more : List UInt8} {t : Transfer} (hheld : t.held = false)
    (hchunk : chunk.drop t.used = run ++ more) (hfits : t.written + run.length ≤ t.cells.length)
    (hne : run ≠ []) (hrun : ∀ b ∈ run, b ≠ Byte.carriageReturn)
    (hstep : t.step chunk = (do
      let cells ← Cells.store t.cells t.written run
      .ok ⟨cells, t.written + run.length, t.used + run.length, false⟩)) :
    t.Steps chunk (t.advance run run.length false) := by
  have hpos := List.length_pos_iff.2 hne
  have hlength := congrArg List.length hchunk
  rw [List.length_drop, List.length_append] at hlength
  refine ⟨?_, ?_, result_copy hheld hfits hchunk hrun⟩
  · rw [hstep]
    exact bind_eq_ok.2 ⟨_, store_advance run.length false hfits, rfl⟩
  · simp only [advance, hheld, Bool.toNat_false]
    omega

/-- A step that takes up a carriage return. -/
theorem steps_of_return {chunk later : List UInt8} {t : Transfer} (hheld : t.held = false)
    (hchunk : chunk.drop t.used = Byte.carriageReturn :: later)
    (hwritten : t.written < t.cells.length)
    (hstep : t.step chunk = .ok { t with used := t.used + 1, held := true }) :
    t.Steps chunk (t.advance [] 1 true) := by
  have hfits : t.written + ([] : List UInt8).length ≤ t.cells.length := Nat.le_of_lt hwritten
  obtain ⟨room, hroom⟩ : ∃ room, t.cells.length - t.written = room + 1 :=
    ⟨t.cells.length - t.written - 1, by omega⟩
  have hlength := congrArg List.length hchunk
  rw [List.length_drop, List.length_cons] at hlength
  refine ⟨?_, ?_, result_advance hfits ?_⟩
  · rw [hstep, advance_nil]
  · simp only [advance, hheld, Bool.toNat_true, Bool.toNat_false]
    omega
  · rw [rest_advance chunk _ _ hfits, rest, hheld, hroom, hchunk, collapse,
      if_neg Bool.false_ne_true, if_pos rfl]
    simp only [Collapsed.use, List.length_nil, Nat.sub_zero, List.drop_one, List.tail_cons,
      List.nil_append, Nat.add_comm]

/-- A step that looks for the next carriage return. -/
theorem exists_step_of_free {chunk : List UInt8} {t : Transfer} (h : t.Active chunk)
    (hheld : t.held = false) : ∃ t', t.Steps chunk t' := by
  have hstep := step_of_free h hheld
  obtain ⟨hused, hwritten⟩ := h
  obtain ⟨more, hsplit⟩ : ∃ more, chunk.drop t.used = t.visible chunk ++ more :=
    ⟨_, (List.take_append_drop _ _).symm⟩
  have hlength : (t.visible chunk).length =
      min (chunk.length - t.used) (t.cells.length - t.written) := by
    rw [visible, List.length_take, List.length_drop]
    omega
  unfold copy at hstep
  cases hfind : (t.visible chunk).findIdx? (· == Byte.carriageReturn) with
  | none =>
    have hnone := List.findIdx?_eq_none_iff.1 hfind
    rw [hfind] at hstep
    refine ⟨_, steps_of_run hheld hsplit (by omega) (List.ne_nil_of_length_pos (by omega)) ?_ hstep⟩
    intro b hb
    simpa using hnone b hb
  | some i =>
    obtain ⟨hi, hreturn, hbefore⟩ := List.findIdx?_eq_some_iff_getElem.1 hfind
    rw [hfind] at hstep
    cases i with
    | zero =>
      have hfirst : (t.visible chunk).head? = some Byte.carriageReturn := by
        rw [List.head?_eq_getElem?, List.getElem?_eq_getElem hi]
        exact congrArg some (eq_of_beq hreturn)
      obtain ⟨others, hothers⟩ := List.head?_eq_some_iff.1 hfirst
      rw [hothers] at hsplit
      exact ⟨_, steps_of_return hheld hsplit hwritten hstep⟩
    | succ i =>
      have hlen : ((t.visible chunk).take (i + 1)).length = i + 1 := by
        rw [List.length_take, Nat.min_eq_left (Nat.le_of_lt hi)]
      have hrun : chunk.drop t.used =
          (t.visible chunk).take (i + 1) ++ ((t.visible chunk).drop (i + 1) ++ more) := by
        rw [hsplit, ← List.append_assoc, List.take_append_drop]
      refine ⟨_, steps_of_run hheld hrun ?_ (List.ne_nil_of_length_pos (by omega)) ?_ ?_⟩
      · rw [hlen]
        omega
      · intro b hb
        obtain ⟨j, hj, rfl⟩ := List.mem_take_iff_getElem.1 hb
        simpa using hbefore j (by omega)
      · rw [hstep, hlen]
        exact congrArg (· >>= _) (Cells.slice_ok (Nat.zero_le _) (Nat.le_of_lt hi))

/-- As long as there is something to be done, there is a step. -/
theorem exists_step {chunk : List UInt8} {t : Transfer} (h : t.Active chunk) :
    ∃ t', t.Steps chunk t' := by
  cases hheld : t.held with
  | true => exact exists_step_of_held h hheld
  | false => exact exists_step_of_free h hheld

/-- What has not been refused is such a step. -/
theorem steps_of_ok {chunk : List UInt8} {t t' : Transfer} (h : t.Active chunk)
    (hstep : t.step chunk = .ok t') : t.Steps chunk t' := by
  obtain ⟨t₁, hsteps⟩ := exists_step h
  obtain rfl : t₁ = t' := Except.ok.inj (hsteps.ok.symm.trans hstep)
  exact hsteps

/-- Steps as long as bytes of the chunk and cells are left. -/
def run (chunk : List UInt8) (t : Transfer) : Except Overrun Transfer :=
  if h : t.Active chunk then
    match hstep : t.step chunk with
    | .error e => .error e
    | .ok t' =>
      have := (steps_of_ok h hstep).less
      run chunk t'
  else .ok t
termination_by 2 * (chunk.length - t.used) + t.held.toNat

/-- When nothing is left to be done, the result is there. -/
theorem result_of_not_active {chunk : List UInt8} {t : Transfer} (h : ¬ t.Active chunk) :
    t.result chunk = t := by
  have hrest : t.rest chunk = ⟨[], 0, t.held⟩ := by
    rcases Nat.lt_or_ge t.written t.cells.length with hlt | hge
    · have hused : chunk.length ≤ t.used := Nat.le_of_not_lt fun hused => h ⟨hused, hlt⟩
      obtain ⟨room, hroom⟩ : ∃ room, t.cells.length - t.written = room + 1 :=
        ⟨t.cells.length - t.written - 1, by omega⟩
      rw [rest, List.drop_eq_nil_of_le hused, hroom, collapse.eq_def]
    · rw [rest, Nat.sub_eq_zero_of_le hge, collapse]
  rw [result, hrest, advance_nil]
  rfl

/-- No step is refused, and the steps do with the chunk what is to be done. -/
theorem run_eq (chunk : List UInt8) (t : Transfer) : t.run chunk = .ok (t.result chunk) := by
  fun_induction run chunk t with
  | case1 t h e herror =>
    obtain ⟨t', hsteps⟩ := exists_step h
    rw [hsteps.ok] at herror
    cases herror
  | case2 t h t' hstep _ ih => rw [ih, (steps_of_ok h hstep).same]
  | case3 t h => rw [result_of_not_active h]

end Transfer

/-! ## Normalised streams -/

namespace Normalized

/-- Write what one chunk contributes, or the carriage return held back at the end. -/
def roundInto (n : Normalized) (cells : List UInt8) : Except Overrun (Filled Normalized) :=
  match n.chunk with
  | ([], n) =>
    if n.heldReturn then do
      let cells ← Cells.store cells 0 [Byte.carriageReturn]
      .ok ⟨1, cells, { n with heldReturn := false }⟩
    else .ok ⟨0, cells, n⟩
  | (bytes, n) => do
    let t ← Transfer.run bytes ⟨cells, 0, 0, n.heldReturn⟩
    .ok ⟨t.written, t.cells, { n with input := n.input.consume t.used, heldReturn := t.held }⟩

/-- Write the next bytes, in a second round if nothing has been written in the first and a carriage
return has been taken up. -/
def fillInto (n : Normalized) (cells : List UInt8) : Except Overrun (Filled Normalized) :=
  if cells.length = 0 then .ok ⟨0, cells, n⟩
  else do
    let r ← n.roundInto cells
    if r.count = 0 ∧ r.state.heldReturn = true then r.state.roundInto r.cells else .ok r

/-- A round is not refused, and writes what it hands out. -/
theorem roundInto_eq (n : Normalized) {cells : List UInt8} (h : 0 < cells.length) :
    n.roundInto cells = .ok (Filled.ofAnswer cells (n.round cells.length)) := by
  rcases hchunk : n.chunk with ⟨bytes, n'⟩
  cases bytes with
  | nil =>
    simp only [roundInto, round, hchunk]
    cases hheld : n'.heldReturn with
    | true =>
      have hone : 0 + [Byte.carriageReturn].length ≤ cells.length := h
      simp only [if_true]
      exact bind_eq_ok.2 ⟨_, Cells.store_ok hone, rfl⟩
    | false =>
      simp only [Bool.false_eq_true, if_false]
      rfl
  | cons b bytes =>
    simp only [roundInto, round, hchunk]
    refine bind_eq_ok.2 ⟨_, Transfer.run_eq _ _, ?_⟩
    simp only [Filled.ofAnswer, Transfer.result, Transfer.rest, Transfer.advance, List.drop_zero,
      Nat.sub_zero, List.take_zero, List.nil_append, Nat.zero_add]

/-- Writing is not refused, and writes what the source hands out. -/
theorem fillInto_eq (n : Normalized) (cells : List UInt8) :
    n.fillInto cells = .ok (Filled.ofAnswer cells (n.fill cells.length)) := by
  rcases Nat.eq_zero_or_pos cells.length with hzero | hpos
  · rw [fillInto, fill, if_pos hzero, if_pos hzero]
    rfl
  · rw [fillInto, if_neg (Nat.ne_of_gt hpos), n.roundInto_eq hpos]
    change (if (n.round cells.length).1.length = 0 ∧ (n.round cells.length).2.heldReturn = true then
      (n.round cells.length).2.roundInto
        ((n.round cells.length).1 ++ cells.drop (n.round cells.length).1.length)
      else .ok (Filled.ofAnswer cells (n.round cells.length))) = _
    by_cases hnil : (n.round cells.length).1 = []
    · rw [fill_of_round_nil hpos hnil, hnil]
      cases hheld : (n.round cells.length).2.heldReturn with
      | true => exact (n.round cells.length).2.roundInto_eq hpos
      | false =>
        have hround : n.round cells.length = ([], (n.round cells.length).2) := Prod.ext hnil rfl
        rw [if_neg fun hboth => Bool.false_ne_true hboth.2, if_neg Bool.false_ne_true, ← hround]
    · have hne : (n.round cells.length).1.length ≠ 0 := fun hlen =>
        hnil (List.eq_nil_of_length_eq_zero hlen)
      rw [fill_of_round_ne hpos hnil, if_neg fun hboth => hne hboth.1]

instance : Filler Normalized Normalized where
  start := id
  fillInto := fillInto
  Is := Eq
  start_is _ := rfl
  fillInto_is := by
    rintro n _ rfl cells
    obtain ⟨hlength, htake⟩ :=
      Filled.ofAnswer_spec (n.fill cells.length) (n.fill_length_le cells.length)
    exact ⟨_, fillInto_eq n cells, rfl, hlength, htake, rfl⟩

end Normalized

end Listfile
