import Listfile.Proofs.Failure

/-!
# Line ends over any fragmentation

A normalised stream meets a carriage return at the end of a read, at the end of the room, at the end
of the data or before a failed read, and it takes up bytes at another pace than it hands them out.
This module keeps the books of a whole course of requests: what has been handed out, and the carriage
return held back, are the normalised bytes consumed so far.

The streams here are steady (`Steady`): no read has given nothing while bytes were left. Reads may
be short, be interrupted or fail. Two things are kept apart.

* The stream and its buffer: the bytes read before the first failure and those ahead are the data,
  and after a failure nothing more is read, or nothing is left to read (`Settled`, `Free`).
* What is handed out: however many of the bytes within reach are taken next, what normalising them
  together with those consumed adds is what normalising them behind the carriage return held back
  gives (`Balanced`).

One round keeps both (`round_balanced`), and so do a fill and a course of fills. So an answer is empty
only at the end, where all that was read is handed out (`fill_normalizes`).
-/

namespace Listfile

/-! ## Calls -/

/-- No read of a stream over `data` has given nothing while bytes were left. The latest call comes
first. -/
def Steady (data : List UInt8) : List StreamCall → Prop
  | [] => True
  | .read _ (.bytes []) :: earlier => data.length ≤ positionAfter earlier ∧ Steady data earlier
  | _ :: earlier => Steady data earlier

instance Steady.decidable (data : List UInt8) :
    (calls : List StreamCall) → Decidable (Steady data calls)
  | [] => isTrue trivial
  | .read _ (.bytes []) :: earlier =>
    have := decidable data earlier
    inferInstanceAs (Decidable (_ ∧ _))
  | .read _ (.bytes (_ :: _)) :: earlier => decidable data earlier
  | .read _ .interrupted :: earlier => decidable data earlier
  | .read _ (.failed _) :: earlier => decidable data earlier
  | .seek _ _ :: earlier => decidable data earlier

/-- The bytes read before the first failure. The latest call comes first. -/
def readBeforeFailure : List StreamCall → List UInt8
  | [] => []
  | .read _ (.bytes bytes) :: earlier =>
    readBeforeFailure earlier ++ if failures earlier = 0 then bytes else []
  | _ :: earlier => readBeforeFailure earlier

/-- Calls that have been steady so far were so before the latest one. -/
theorem Steady.tail {data : List UInt8} {call : StreamCall} {earlier : List StreamCall}
    (h : Steady data (call :: earlier)) : Steady data earlier := by
  cases call with
  | read size answer =>
    cases answer with
    | bytes bytes =>
      cases bytes with
      | nil => exact h.2
      | cons b more => exact h
    | interrupted => exact h
    | failed cause => exact h
  | seek target moved => exact h

namespace Stream

/-- A stream that has been steady up to the end of a run was so at its start. -/
theorem Run.steady_before {s s' : Stream} (run : s.Run s') (h : Steady s'.data s'.calls) :
    Steady s.data s.calls := by
  induction run with
  | stay s => exact h
  | read _ _ ih => exact (ih h).tail
  | seek _ _ ih => exact (ih h).tail

/-- The position is in step with the calls, and the bytes read before the first failure and those
ahead are the data. -/
structure Settled (s : Stream) : Prop where
  /-- The position is the one that the calls have led to. -/
  inStep : s.InStep
  /-- What is not ahead has been read before the first failure. -/
  data : s.data = readBeforeFailure s.calls ++ s.ahead

/-- A read leaves a stream settled, if none has failed before or no bytes are left. -/
theorem Settled.read {s : Stream} (h : s.Settled) (hfree : failures s.calls = 0 ∨ s.ahead = [])
    (size : Nat) : (s.read size).2.Settled := by
  refine ⟨h.inStep.read size, ?_⟩
  show s.data = readBeforeFailure (.read size (s.answer size) :: s.calls) ++ _
  have hread : s.read size = (s.answer size, (s.read size).2) := rfl
  cases hanswer : s.answer size with
  | bytes bytes =>
    rw [hanswer] at hread
    have hahead := ahead_eq_of_read hread
    rw [h.data, hahead, readBeforeFailure, List.append_assoc]
    rcases hfree with hquiet | hend
    · rw [if_pos hquiet]
    · rw [hend] at hahead
      rw [List.append_eq_nil_iff.1 hahead.symm |>.1, ite_self]
  | interrupted =>
    rw [ahead_eq_of_read_ne hread (by simp [hanswer])]
    exact h.data
  | failed cause =>
    rw [ahead_eq_of_read_ne hread (by simp [hanswer])]
    exact h.data

/-- A steady read gives nothing only at the end of the data. -/
theorem ahead_eq_nil_of_steady {s s' : Stream} {size : Nat} (hread : s.read size = (.bytes [], s'))
    (hstep : s.InStep) (h : Steady s'.data s'.calls) : s.ahead = [] := by
  obtain ⟨hanswer, rfl⟩ := Prod.mk.inj hread
  change Steady s.data (.read size (s.answer size) :: s.calls) at h
  rw [hanswer] at h
  have hend := h.1
  rw [← hstep] at hend
  exact List.drop_eq_nil_of_le hend

end Stream

namespace Buffered

/-! ## Buffers -/

/-- The stream has been steady. -/
def IsSteady (b : Buffered) : Prop :=
  Steady b.stream.data b.stream.calls

/-- A buffer whose stream has been steady up to the end of a run was so at its start. -/
theorem Run.steady_before {b b' : Buffered} (run : b.Run b') (hpos : 0 < b.capacity)
    (h : b'.IsSteady) : b.IsSteady :=
  (run.stream hpos).steady_before h

/-- Reading can go on: no read has failed, or no bytes are left. -/
def Free (b : Buffered) : Prop :=
  failures b.stream.calls = 0 ∨ b.ahead = []

/-- If nothing is held, a fetch answers as the stream does. -/
theorem fetch_of_nil {b : Buffered} (h : b.held = []) :
    b.fetch.1 = (b.stream.read b.capacity).1 ∧ b.fetch.2.stream = (b.stream.read b.capacity).2 := by
  simp only [fetch, h]
  split
  · rename_i bytes stream hread
    rw [hread]
    exact ⟨rfl, rfl⟩
  · rename_i answer stream _ hread
    rw [hread]
    exact ⟨rfl, rfl⟩

/-- Fetching leaves the stream settled. -/
theorem fetch_settled {b : Buffered} (h : b.stream.Settled) (hfree : b.Free) :
    b.fetch.2.stream.Settled := by
  by_cases hheld : b.held = []
  · rw [(fetch_of_nil hheld).2]
    refine h.read (hfree.imp id ?_) b.capacity
    intro hend
    exact (List.append_eq_nil_iff.1 hend).2
  · rw [fetch_of_held hheld]
    exact h

/-- After a fetch that has not failed reading can go on. -/
theorem fetch_free {b : Buffered} (hfree : b.Free) (hanswer : ∀ cause, b.fetch.1 ≠ .failed cause) :
    b.fetch.2.Free := by
  rcases hfree with hquiet | hend
  · left
    by_cases hheld : b.held = []
    · rw [fetch_calls hheld]
      cases hfetch : b.fetch.1 with
      | bytes bytes => exact hquiet
      | interrupted => exact hquiet
      | failed cause => exact absurd hfetch (hanswer cause)
    · rw [fetch_of_held hheld]
      exact hquiet
  · exact .inr (b.ahead_fetch.trans hend)

/-- A steady stream gives nothing through its buffer only at the end of the data. -/
theorem ahead_eq_nil_of_steady {b b' : Buffered} (hfetch : b.fetch = (.bytes [], b'))
    (hstep : b.stream.InStep) (h : b'.IsSteady) : b.ahead = [] := by
  by_cases hheld : b.held = []
  · obtain ⟨hanswer, hstream⟩ := fetch_of_nil hheld
    rw [hfetch] at hanswer hstream
    rw [IsSteady, hstream] at h
    rw [ahead, hheld]
    exact Stream.ahead_eq_nil_of_steady (Prod.ext hanswer.symm rfl) hstep h
  · rw [fetch_of_held hheld] at hfetch
    exact absurd (ReadAnswer.bytes.inj (Prod.mk.inj hfetch).1) hheld

/-- The first request for a chunk leaves the stream settled. If it succeeds, reading can go on, and it
gives nothing only at the end of the data. If it fails, a read has failed and nothing is held. -/
theorem fetchPatiently_settled {b : Buffered} (hpos : 0 < b.capacity) (h : b.stream.Settled)
    (hfree : b.Free) (hsteady : b.fetchPatiently.2.IsSteady) :
    b.fetchPatiently.2.stream.Settled ∧
      (∀ bytes, b.fetchPatiently.1 = some bytes → b.fetchPatiently.2.Free ∧
        b.fetchPatiently.2.held = bytes ∧ (bytes = [] → b.ahead = [])) ∧
      (b.fetchPatiently.1 = none → failures b.fetchPatiently.2.stream.calls ≠ 0 ∧
        b.fetchPatiently.2.held = []) := by
  fun_induction fetchPatiently b with
  | case1 b bytes b' hfetch =>
    have hsettled := fetch_settled h hfree
    have hlater := fetch_free hfree (by simp [hfetch])
    rw [hfetch] at hsettled hlater
    refine ⟨hsettled, ?_, fun hnone => absurd hnone (Option.some_ne_none bytes)⟩
    intro same hsame
    cases hsame
    refine ⟨hlater, held_of_fetch hfetch, ?_⟩
    rintro rfl
    exact ahead_eq_nil_of_steady hfetch h.inStep hsteady
  | case2 b b' hfetch _ ih =>
    have hsettled := fetch_settled h hfree
    have hlater := fetch_free hfree (by simp [hfetch])
    have hrun := b.fetch_run
    have hahead := b.ahead_fetch
    rw [hfetch] at hsettled hlater hrun hahead
    rw [← hahead]
    refine ih ?_ hsettled hlater hsteady
    rw [hrun.capacity]
    exact hpos
  | case3 b cause b' hfetch =>
    have hsettled := fetch_settled h hfree
    rw [hfetch] at hsettled
    refine ⟨hsettled, fun bytes hsome => absurd hsome.symm (Option.some_ne_none bytes), fun _ => ?_⟩
    obtain ⟨size, cause', hlast⟩ := (fetch_failsAfter hfetch).last
    rw [hlast]
    exact ⟨Nat.succ_ne_zero _, (fetch_failsAfter hfetch).held⟩

end Buffered

namespace Normalized

/-! ## Chunks -/

/-- The books of the stream: it is settled, and reading goes on only if it can. -/
structure Ledger (n : Normalized) : Prop where
  /-- Each read asks for bytes. -/
  capacity : 0 < n.input.capacity
  /-- The stream is settled. -/
  settled : n.input.stream.Settled
  /-- Unless the source is marked as failed, reading can go on. -/
  free : n.failed = false → n.input.Free
  /-- The mark is there only if a read has failed, and then nothing is held. -/
  failed : n.failed = true → failures n.calls ≠ 0 ∧ n.input.held = []

/-- No byte more will be consumed: the source is marked as failed, or no bytes are left. -/
def Spent (n : Normalized) : Prop :=
  n.failed = true ∨ n.input.ahead = []

/-- The second request for a chunk keeps the books after a first one that has succeeded. It gives
nothing only at the end of the data. -/
theorem chunk_ledger_of_some {n : Normalized} (h : n.Ledger) (hfailed : n.failed = false)
    {bytes : List UInt8} (hpatient : n.input.fetchPatiently.1 = some bytes)
    (hsteady : n.input.fetchPatiently.2.IsSteady) :
    n.chunk.2.Ledger ∧ n.chunk.2.failed = false ∧ (n.chunk.1 = [] → n.input.ahead = []) := by
  obtain ⟨hsettled, hsome, -⟩ :=
    Buffered.fetchPatiently_settled h.capacity h.settled (h.free hfailed) hsteady
  obtain ⟨hfree, hheld, hend⟩ := hsome bytes hpatient
  obtain ⟨hchunk, -, -⟩ := chunk_of_some hfailed hpatient
  have hfailed' : n.chunk.2.failed = false := by
    rw [hchunk]
    exact hfailed
  have hcapacity : 0 < n.chunk.2.input.capacity := by
    rw [n.chunk_run.capacity]
    exact h.capacity
  have hfree' : n.input.fetchPatiently.2.fetch.2.Free := by
    by_cases hnil : bytes = []
    · -- The second request reads once more, but no bytes are left to be lost.
      have hahead := n.input.ahead_fetchPatiently.trans (hend hnil)
      exact .inr ((Buffered.ahead_fetch _).trans hahead)
    · rw [Buffered.fetch_of_held (by rw [hheld]; exact hnil)]
      exact hfree
  refine ⟨⟨hcapacity, ?_, fun _ => ?_, ?_⟩, hfailed', fun hempty => hend ?_⟩
  · rw [hchunk]
    exact Buffered.fetch_settled hsettled hfree
  · rw [hchunk]
    exact hfree'
  · intro hmark
    rw [hfailed'] at hmark
    cases hmark
  · rw [← hheld]
    exact held_of_chunk_nil hfailed hpatient hempty

/-- Asking for a chunk keeps the books. A chunk is empty only when the source is spent, and otherwise
the source is not marked as failed. -/
theorem chunk_ledger {n : Normalized} (h : n.Ledger)
    (hsteady : n.chunk.2.input.IsSteady) :
    n.chunk.2.Ledger ∧ (n.chunk.1 = [] → n.chunk.2.Spent) ∧
      (n.chunk.1 ≠ [] → n.failed = false ∧ n.chunk.2.failed = false) := by
  cases hfailed : n.failed with
  | true =>
    rw [chunk, if_pos hfailed]
    exact ⟨h, fun _ => .inl hfailed, fun hne => absurd rfl hne⟩
  | false =>
    have hcapacity : 0 < n.input.fetchPatiently.2.capacity := by
      rw [n.input.fetchPatiently_run.capacity]
      exact h.capacity
    have hbefore := (fetchPatiently_run_chunk hfailed).steady_before hcapacity hsteady
    cases hanswer : n.input.fetchPatiently.1 with
    | none =>
      obtain ⟨hsettled, -, hnone⟩ :=
        Buffered.fetchPatiently_settled h.capacity h.settled (h.free hfailed) hbefore
      rw [chunk_of_none hfailed hanswer]
      refine ⟨⟨hcapacity, hsettled, ?_, fun _ => hnone hanswer⟩, fun _ => .inl rfl, ?_⟩
      · intro hmark
        cases hmark
      · intro hne
        exact absurd rfl hne
    | some bytes =>
      obtain ⟨hledger, hfailed', hend⟩ := chunk_ledger_of_some h hfailed hanswer hbefore
      exact ⟨hledger, fun hnil => .inr (n.chunk_ahead.trans (hend hnil)), fun _ => ⟨rfl, hfailed'⟩⟩

/-! ## Rounds and fills -/

/-- The bytes that can still be consumed. -/
def reach (n : Normalized) : List UInt8 :=
  if n.failed then [] else n.input.ahead

/-- After `consumed` has been consumed and `out` handed out, the books are in order: whichever bytes
within reach are consumed next, `out` is what normalising everything adds before them. -/
structure Balanced (n : Normalized) (consumed out : List UInt8) : Prop where
  /-- The books of the stream are in order. -/
  ledger : n.Ledger
  /-- The bytes consumed and those not consumed are the data. -/
  data : n.input.stream.data = consumed ++ n.input.ahead
  /-- What comes next is normalised behind the carriage return held back. -/
  balance : ∀ more, more <+: n.reach →
    normalize (consumed ++ more) = out ++ normalize (heldBack n.heldReturn ++ more)

/-- A carriage return alone stays. -/
theorem normalize_heldBack (held : Bool) : normalize (heldBack held) = heldBack held := by
  cases held <;> rfl

/-- All that has been handed out, and the carriage return held back, are the normalised bytes
consumed. -/
theorem Balanced.normalize_consumed {n : Normalized} {consumed out : List UInt8}
    (h : n.Balanced consumed out) : normalize consumed = out ++ heldBack n.heldReturn := by
  have hnow := h.balance [] List.nil_prefix
  rwa [List.append_nil, List.append_nil, normalize_heldBack] at hnow

/-- Nothing is within reach of a source that is spent. -/
theorem Spent.reach_eq_nil {n : Normalized} (h : n.Spent) : n.reach = [] := by
  rw [reach]
  rcases h with hfailed | hend
  · rw [if_pos hfailed]
  · rw [hend, ite_self]

/-- A source is as fresh as its stream: at first nothing is consumed and nothing handed out. -/
theorem balanced_ofStream {s : Stream} (hposition : s.position = 0) (hcalls : s.calls = [])
    {capacity : Nat} (hpos : 0 < capacity) : (ofStream s capacity).Balanced [] [] := by
  have hahead : (ofStream s capacity).input.ahead = s.data := by
    show s.data.drop s.position = s.data
    rw [hposition, List.drop_zero]
  have hstep : s.InStep := by
    rw [Stream.InStep, hposition, hcalls]
    rfl
  have hdata : s.data = readBeforeFailure s.calls ++ s.ahead := by
    rw [hcalls]
    exact hahead.symm
  have hquiet : failures s.calls = 0 := by
    rw [hcalls]
    rfl
  refine ⟨⟨hpos, ⟨hstep, hdata⟩, fun _ => .inl hquiet, ?_⟩, hahead.symm, fun _ _ => rfl⟩
  intro hmark
  cases hmark

/-- A round without a chunk keeps the books: no byte is consumed, and none will be. -/
theorem balanced_round_of_nil {n : Normalized} (room : Nat) {consumed out : List UInt8}
    (h : n.Balanced consumed out) (hledger : n.chunk.2.Ledger) (hspent : n.chunk.2.Spent)
    (hnil : n.chunk.1 = []) :
    (n.round room).2.Balanced consumed (out ++ (n.round room).1) := by
  rw [round_eq_of_nil room hnil]
  refine ⟨⟨hledger.capacity, hledger.settled, hledger.free, hledger.failed⟩, ?_, ?_⟩
  · show n.chunk.2.input.stream.data = consumed ++ n.chunk.2.input.ahead
    rw [n.chunk_ahead, (n.chunk_run.stream h.ledger.capacity).data]
    exact h.data
  · intro more hmore
    have hreach : n.chunk.2.reach = [] := hspent.reach_eq_nil
    obtain rfl : more = [] := List.prefix_nil.1 (hreach ▸ hmore)
    rw [List.append_nil, h.normalize_consumed]
    exact (List.append_nil _).symm

/-- A round with a chunk keeps the books: the bytes used up are consumed. -/
theorem balanced_round_of_ne {n : Normalized} (room : Nat) {consumed out : List UInt8}
    (h : n.Balanced consumed out) (hledger : n.chunk.2.Ledger) (hne : n.chunk.1 ≠ [])
    (hfailed : n.failed = false) (hfailed' : n.chunk.2.failed = false) :
    (n.round room).2.Balanced
      (consumed ++ n.chunk.1.take (collapse n.heldReturn room n.chunk.1).used)
      (out ++ (n.round room).1) := by
  have hheld : n.chunk.2.input.held = n.chunk.1 := held_of_chunk rfl hne
  have hahead : n.input.ahead = n.chunk.1 ++ n.chunk.2.input.stream.ahead := by
    rw [← n.chunk_ahead, Buffered.ahead, hheld]
  have hreach : n.reach = n.chunk.1 ++ n.chunk.2.input.stream.ahead := by
    rw [reach, if_neg (by rw [hfailed]; exact Bool.false_ne_true), hahead]
  have hquiet : failures n.chunk.2.calls = 0 := by
    rcases hledger.free hfailed' with hquiet | hend
    · exact hquiet
    · rw [n.chunk_ahead, hahead] at hend
      exact absurd (List.append_eq_nil_iff.1 hend).1 hne
  have hsplit : n.chunk.1 ++ n.chunk.2.input.stream.ahead =
      n.chunk.1.take (collapse n.heldReturn room n.chunk.1).used ++
        (n.chunk.1.drop (collapse n.heldReturn room n.chunk.1).used ++
          n.chunk.2.input.stream.ahead) := by
    rw [← List.append_assoc, List.take_append_drop]
  rw [round_of_ne room hne]
  refine ⟨⟨hledger.capacity, hledger.settled, fun _ => .inl hquiet, ?_⟩, ?_, ?_⟩
  · intro hmark
    rw [hfailed'] at hmark
    cases hmark
  · simp only [Buffered.ahead, Buffered.consume, hheld]
    rw [(n.chunk_run.stream h.ledger.capacity).data, h.data, hahead, hsplit, List.append_assoc]
  · intro more hmore
    simp only [reach, hfailed', Bool.false_eq_true, if_false, Buffered.ahead, Buffered.consume,
      hheld] at hmore
    rw [List.append_assoc, h.balance, normalize_collapse_take n.heldReturn room n.chunk.1 hmore,
      List.append_assoc]
    rw [hreach, hsplit]
    exact (List.prefix_append_right_inj _).2 hmore

/-- Only the request for a chunk makes calls on the stream. -/
theorem round_stream (n : Normalized) (room : Nat) :
    (n.round room).2.input.stream = n.chunk.2.input.stream := by
  by_cases hnil : n.chunk.1 = []
  · rw [round_eq_of_nil room hnil]
  · rw [round_of_ne room hnil]
    rfl

/-- A round keeps the books. If it hands out nothing and holds nothing back, the source is spent. -/
theorem round_balanced {n : Normalized} {room : Nat} {consumed out : List UInt8} (hroom : 0 < room)
    (h : n.Balanced consumed out) (hsteady : (n.round room).2.input.IsSteady) :
    (∃ consumed', (n.round room).2.Balanced consumed' (out ++ (n.round room).1)) ∧
      ((n.round room).1 = [] → (n.round room).2.heldReturn = false → (n.round room).2.Spent) := by
  rw [Buffered.IsSteady, n.round_stream room] at hsteady
  obtain ⟨hledger, hspent, hfailed⟩ := chunk_ledger h.ledger hsteady
  by_cases hnil : n.chunk.1 = []
  · refine ⟨⟨consumed, balanced_round_of_nil room h hledger (hspent hnil) hnil⟩, fun _ _ => ?_⟩
    rw [round_eq_of_nil room hnil]
    exact hspent hnil
  · obtain ⟨hbefore, hafter⟩ := hfailed hnil
    refine ⟨⟨_, balanced_round_of_ne room h hledger hnil hbefore hafter⟩, fun hempty hheld => ?_⟩
    rw [round_of_ne room hnil] at hempty hheld
    rw [(collapse_of_written_eq_nil hroom hnil hempty).2.2] at hheld
    cases hheld

/-- Without room a fill does nothing. -/
theorem fill_zero (n : Normalized) : n.fill 0 = ([], n) := by
  rw [fill, if_pos rfl]

/-- A fill keeps the books. If there is room and it hands out nothing, then nothing is held back and
the source is spent. -/
theorem fill_balanced {n : Normalized} {room : Nat} {consumed out : List UInt8}
    (h : n.Balanced consumed out) (hsteady : (n.fill room).2.input.IsSteady) :
    (∃ consumed', (n.fill room).2.Balanced consumed' (out ++ (n.fill room).1)) ∧
      (0 < room → (n.fill room).1 = [] →
        (n.fill room).2.heldReturn = false ∧ (n.fill room).2.Spent) := by
  rcases Nat.eq_zero_or_pos room with rfl | hroom
  · rw [fill_zero, List.append_nil]
    exact ⟨⟨consumed, h⟩, fun hzero => absurd hzero (Nat.lt_irrefl 0)⟩
  by_cases hnil : (n.round room).1 = []
  · rw [fill_of_round_nil hroom hnil] at hsteady ⊢
    cases hheld : (n.round room).2.heldReturn with
    | true =>
      -- A carriage return has been taken up, and a second round follows the first.
      rw [hheld, if_pos rfl] at hsteady
      rw [if_pos rfl]
      have hcapacity : 0 < (n.round room).2.input.capacity := by
        rw [(n.round_run room).capacity]
        exact h.ledger.capacity
      have hfirst := ((n.round room).2.round_run room).steady_before hcapacity hsteady
      obtain ⟨⟨_, hbalanced⟩, -⟩ := round_balanced hroom h hfirst
      obtain ⟨hbalanced', -⟩ := round_balanced hroom hbalanced hsteady
      rw [hnil, List.append_nil] at hbalanced'
      exact ⟨hbalanced', fun _ hempty => absurd hempty (round_ne_nil_of_held hroom hheld)⟩
    | false =>
      rw [hheld, if_neg Bool.false_ne_true] at hsteady
      rw [if_neg Bool.false_ne_true]
      obtain ⟨hbalanced, hspent⟩ := round_balanced hroom h hsteady
      rw [hnil] at hbalanced
      exact ⟨hbalanced, fun _ _ => ⟨hheld, hspent hnil hheld⟩⟩
  · rw [fill_of_round_ne hroom hnil] at hsteady ⊢
    exact ⟨(round_balanced hroom h hsteady).1, fun _ hempty => absurd hempty hnil⟩

/-! ## Courses of requests -/

/-- A course of requests is a run. -/
theorem fills_run (rooms : List Nat) (n : Normalized) : n.input.Run (fills rooms n).2.input := by
  induction rooms generalizing n with
  | nil => exact .refl _
  | cons room rooms ih => exact (n.fill_run room).trans (ih (n.fill room).2)

/-- If the stream is steady up to the end of a course, it is so after the first request. -/
theorem steady_of_fills {n : Normalized} {room : Nat} {rooms : List Nat}
    (hpos : 0 < n.input.capacity) (hsteady : (fills (room :: rooms) n).2.input.IsSteady) :
    (n.fill room).2.input.IsSteady := by
  refine (fills_run rooms (n.fill room).2).steady_before ?_ hsteady
  rw [(n.fill_run room).capacity]
  exact hpos

/-- A course of requests keeps the books. -/
theorem fills_balanced {n : Normalized} {consumed out : List UInt8} (rooms : List Nat)
    (h : n.Balanced consumed out) (hsteady : (fills rooms n).2.input.IsSteady) :
    ∃ consumed', (fills rooms n).2.Balanced consumed' (out ++ (fills rooms n).1.flatten) := by
  induction rooms generalizing n consumed out with
  | nil => exact ⟨consumed, by simpa [fills] using h⟩
  | cons room rooms ih =>
    obtain ⟨⟨_, hbalanced⟩, -⟩ := fill_balanced h (steady_of_fills h.ledger.capacity hsteady)
    obtain ⟨consumed', hlater⟩ := ih hbalanced hsteady
    rw [List.append_assoc] at hlater
    exact ⟨consumed', hlater⟩

/-- A source with nothing left to hand out is silent. -/
theorem silent_of_remaining {n : Normalized} (h : n.remaining = 0) : n.Silent := by
  intro rooms
  induction rooms generalizing n with
  | nil =>
    intro answer hmem
    cases hmem
  | cons room rooms ih =>
    have hfill := n.fill_remaining room
    rw [h] at hfill
    intro answer hmem
    rcases List.mem_cons.1 hmem with rfl | hlater
    · exact List.eq_nil_of_length_eq_zero (by omega)
    · exact ih (n := (n.fill room).2) (by omega) answer hlater

/-- A source that is spent and holds nothing back is silent. -/
theorem Spent.silent {n : Normalized} (h : n.Spent) (hheld : n.heldReturn = false) : n.Silent := by
  rcases h with hfailed | hend
  · intro rooms answer hmem
    rw [fills_of_failed hfailed hheld] at hmem
    obtain ⟨room, -, rfl⟩ := List.mem_map.1 hmem
    rfl
  · apply silent_of_remaining
    rw [remaining, hend, hheld]
    rfl

/-- A silent source stays silent. -/
theorem Silent.fills {n : Normalized} (h : n.Silent) (rooms : List Nat) :
    (Normalized.fills rooms n).2.Silent := by
  induction rooms generalizing n with
  | nil => exact h
  | cons room rooms ih =>
    refine ih (n := (n.fill room).2) ?_
    intro later answer hmem
    exact h (room :: later) answer (List.mem_cons_of_mem _ hmem)

/-- Each request with room takes something off what is left, until the source is silent. -/
theorem fills_remaining {n : Normalized} {consumed out : List UInt8} (rooms : List Nat)
    (h : n.Balanced consumed out) (hsteady : (fills rooms n).2.input.IsSteady) :
    (fills rooms n).2.Silent ∨
      (fills rooms n).2.remaining + rooms.countP (0 < ·) ≤ n.remaining := by
  induction rooms generalizing n consumed out with
  | nil => exact .inr (Nat.le_refl _)
  | cons room rooms ih =>
    have hfirst := steady_of_fills h.ledger.capacity hsteady
    obtain ⟨⟨_, hbalanced⟩, hspent⟩ := fill_balanced h hfirst
    have hfill := n.fill_remaining room
    by_cases hempty : 0 < room ∧ (n.fill room).1 = []
    · obtain ⟨hheld, hspent⟩ := hspent hempty.1 hempty.2
      exact .inl ((hspent.silent hheld).fills rooms)
    · refine (ih hbalanced hsteady).imp id fun hlater => ?_
      have htaken : (if 0 < room then 1 else 0) ≤ (n.fill room).1.length := by
        split
        · rename_i hroom
          exact List.length_pos_iff.2 fun hnil => hempty ⟨hroom, hnil⟩
        · exact Nat.zero_le _
      rw [List.countP_cons]
      simp only [decide_eq_true_eq]
      show (fills rooms (n.fill room).2).2.remaining + _ ≤ _
      omega

/-! ## Every request -/

/-- What has been handed out in a course of requests. -/
def handedOut (s : Stream) (capacity : Nat) (rooms : List Nat) : List UInt8 :=
  (fills rooms (ofStream s capacity)).1.flatten

/-- When a source is spent, the bytes consumed are those read before the first failure, or all of the
data if no read has failed. -/
theorem Balanced.consumed_eq {n : Normalized} {consumed out : List UInt8}
    (h : n.Balanced consumed out) (hspent : n.Spent) :
    consumed = if failures n.calls = 0 then n.input.stream.data else readBeforeFailure n.calls := by
  split
  · rename_i hquiet
    rcases hspent with hfailed | hend
    · exact absurd hquiet (h.ledger.failed hfailed).1
    · rw [h.data, hend, List.append_nil]
  · have hheld : n.input.held = [] := by
      rcases hspent with hfailed | hend
      · exact (h.ledger.failed hfailed).2
      · exact (List.append_eq_nil_iff.1 hend).1
    have hdata := h.data
    rw [Buffered.ahead, hheld, List.nil_append] at hdata
    exact List.append_cancel_right (hdata.symm.trans h.ledger.settled.data)

/-- A request with the given room to `n`, a source over `data` that has handed out `before` in answer
to requests with the rooms `rooms`, leads to `n'` with the given answer, and line ends are normalised
as they should be. -/
structure Normalizes (data : List UInt8) (rooms : List Nat) (n : Normalized) (before : List UInt8)
    (room : Nat) (answer : List UInt8) (n' : Normalized) : Prop where
  /-- Without room nothing is handed out and nothing changes. -/
  no_room : room = 0 → answer = [] ∧ n' = n
  /-- The answer fits the room. -/
  fits : answer.length ≤ room
  /-- All that has been handed out, and the carriage return held back, are the normalised bytes
  consumed so far. -/
  consumed : ∃ consumed, data = consumed ++ n'.input.ahead ∧
    before ++ answer ++ heldBack n'.heldReturn = normalize consumed
  /-- If there is room and the answer is empty, all that was read before the first failure has been
  handed out, or all of the data if no read has failed. From then on every answer is empty. -/
  ended : 0 < room → answer = [] → n'.Silent ∧
    before = normalize (if failures n'.calls = 0 then data else readBeforeFailure n'.calls)
  /-- This comes about after at most as many requests with room as there are bytes. -/
  ends : data.length ≤ rooms.countP (0 < ·) → answer = []

/-- At most as many bytes are handed out as the stream has. -/
theorem remaining_ofStream (s : Stream) (capacity : Nat) :
    (ofStream s capacity).remaining ≤ s.data.length := by
  show (s.data.drop s.position).length + 0 ≤ s.data.length
  rw [List.length_drop]
  omega

/-- After every course of requests the books are in order, and the source is silent or each request
with room has taken something off what was left. -/
theorem course_balanced {s : Stream} (hposition : s.position = 0) (hcalls : s.calls = [])
    {capacity : Nat} (hpos : 0 < capacity) (rooms : List Nat)
    (hsteady : (course s capacity rooms).input.IsSteady) :
    (∃ consumed, (course s capacity rooms).Balanced consumed (handedOut s capacity rooms)) ∧
      ((course s capacity rooms).Silent ∨
        (course s capacity rooms).remaining + rooms.countP (0 < ·) ≤ s.data.length) := by
  have hstart := balanced_ofStream hposition hcalls hpos
  refine ⟨fills_balanced rooms hstart hsteady, ?_⟩
  refine (fills_remaining rooms hstart hsteady).imp id fun hleft => ?_
  exact Nat.le_trans hleft (remaining_ofStream s capacity)

/-- Line ends are normalised over any fragmentation: for every stream, whatever its reads give, as long
as none gives nothing while bytes are left, every capacity of the buffer, and every request in a
course of requests with whatever rooms. -/
theorem fill_normalizes {s : Stream} (hposition : s.position = 0) (hcalls : s.calls = [])
    (capacity : Nat) (hpos : 0 < capacity) (rooms : List Nat) (room : Nat)
    (h : Steady s.data ((course s capacity rooms).fill room).2.calls) :
    Normalizes s.data rooms (course s capacity rooms) (handedOut s capacity rooms) room
      ((course s capacity rooms).fill room).1 ((course s capacity rooms).fill room).2 := by
  have hrun := fills_run rooms (ofStream s capacity)
  have hfill := (course s capacity rooms).fill_run room
  have hcapacity : 0 < (course s capacity rooms).input.capacity := by
    rw [course, hrun.capacity]
    exact hpos
  have hdata : ((course s capacity rooms).fill room).2.input.stream.data = s.data :=
    (hfill.stream hcapacity).data.trans (hrun.stream hpos).data
  have hsteady : ((course s capacity rooms).fill room).2.input.IsSteady := by
    rw [Buffered.IsSteady, hdata]
    exact h
  obtain ⟨⟨_, hbalanced⟩, hleft⟩ :=
    course_balanced hposition hcalls hpos rooms (hfill.steady_before hcapacity hsteady)
  obtain ⟨⟨consumed, hafter⟩, hspent⟩ := fill_balanced hbalanced hsteady
  have hconsumed := hafter.normalize_consumed
  refine ⟨?_, fill_length_le _ _, ⟨consumed, ?_, hconsumed.symm⟩, ?_, ?_⟩
  · rintro rfl
    rw [fill_zero]
    exact ⟨rfl, rfl⟩
  · rw [← hdata]
    exact hafter.data
  · intro hroom hempty
    obtain ⟨hheld, hspent⟩ := hspent hroom hempty
    refine ⟨hspent.silent hheld, ?_⟩
    rw [hafter.consumed_eq hspent, hdata, hempty, hheld, List.append_nil] at hconsumed
    exact (hconsumed.trans (List.append_nil _)).symm
  · intro hmany
    rcases hleft with hsilent | hleft
    · exact hsilent [room] _ List.mem_cons_self
    · have hlast := (course s capacity rooms).fill_remaining room
      exact List.eq_nil_of_length_eq_zero (by omega)

/-- A stream whose first read ends behind a carriage return, whose second is interrupted, and whose
fourth fails. -/
def brittleStream : Stream :=
  ⟨[0x61, Byte.carriageReturn, Byte.carriageReturn, Byte.newline], 0,
    [.upTo 2, .interrupted, .upTo 1, .failed (.other 5 "Input/output error")], none, [], []⟩

/-- The two carriage returns read before the failure are handed out, one by one, and nothing more. -/
theorem fill_normalizes_brittleStream :
    ((course brittleStream 8 [1, 0, 1, 4]).fill 4).1 = [] ∧
      ((course brittleStream 8 [1, 0, 1, 4]).fill 4).2.Silent ∧
      handedOut brittleStream 8 [1, 0, 1, 4] =
        normalize [0x61, Byte.carriageReturn, Byte.carriageReturn] := by
  have hempty : ((course brittleStream 8 [1, 0, 1, 4]).fill 4).1 = [] := by decide +kernel
  have hread : readBeforeFailure ((course brittleStream 8 [1, 0, 1, 4]).fill 4).2.calls =
      [0x61, Byte.carriageReturn, Byte.carriageReturn] := by decide +kernel
  have hfailed : failures ((course brittleStream 8 [1, 0, 1, 4]).fill 4).2.calls ≠ 0 := by
    decide +kernel
  obtain ⟨hsilent, hall⟩ := (fill_normalizes (s := brittleStream) rfl rfl 8 (by decide)
    [1, 0, 1, 4] 4 (by decide +kernel)).ended (by decide) hempty
  rw [if_neg hfailed, hread] at hall
  exact ⟨hempty, hsilent, hall⟩

end Normalized

end Listfile
