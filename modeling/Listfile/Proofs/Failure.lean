import Listfile.Proofs.Normalized

/-!
# Failed reads

A normalised stream should end for good when a read fails. Whether it does depends on which of the two
requests for a chunk has met the failure.

* The first request marks the source as failed. From then on no call is made on the stream, and every
  answer is empty.
* The second request reads only if the first has read nothing. It takes a failure for no bytes and
  leaves no mark, so the source is then like a fresh one on the stream as it stands, and hands out
  whatever that still gives.

Which request a read belongs to can be told from the calls before it (`awaitsSecond`). `Broken` says
what a fill that meets a failure hands out and leaves behind, `Aftermath` what follows, and
`fill_broken` that this is so for every such fill in whatever course of requests.
`second_failure_forgotten` is the shortest course in which bytes follow a failure.
-/

namespace Listfile

/-! ## Calls -/

/-- Whether the next read is the second request for a chunk: the latest one was a first request and
has read nothing. The latest call comes first. -/
def awaitsSecond : List StreamCall → Bool
  | .read _ (.bytes []) :: earlier => !awaitsSecond earlier
  | _ => false

/-- The number of failed reads. -/
def failures : List StreamCall → Nat
  | [] => 0
  | .read _ (.failed _) :: earlier => failures earlier + 1
  | _ :: earlier => failures earlier

namespace Buffered

/-! ## Fetching -/

/-- The latest call of `b'` is a failed read, the only one since `b`, and it was made after the calls
`earlier`. -/
structure FailsAfter (b b' : Buffered) (earlier : List StreamCall) : Prop where
  /-- The read that has failed is the latest call. -/
  last : ∃ size cause, b'.stream.calls = .read size (.failed cause) :: earlier
  /-- No other read has failed since. -/
  only : failures earlier = failures b.stream.calls
  /-- The read has left nothing in the buffer. -/
  held : b'.held = []
  /-- Each read asks for the same number of bytes. -/
  capacity : b'.capacity = b.capacity

/-- A failure after calls without one is a failure after all of them. -/
theorem FailsAfter.since {b b₁ b' : Buffered} {earlier : List StreamCall}
    (h : b₁.FailsAfter b' earlier) (run : b.Run b₁)
    (hsame : failures b₁.stream.calls = failures b.stream.calls) : b.FailsAfter b' earlier :=
  ⟨h.last, h.only.trans hsame, h.held, h.capacity.trans run.capacity⟩

/-- If nothing is held, a fetch is one read. -/
theorem fetch_calls {b : Buffered} (h : b.held = []) :
    b.fetch.2.stream.calls = .read b.capacity b.fetch.1 :: b.stream.calls := by
  simp only [fetch, h]
  split
  · rename_i bytes stream hread
    obtain ⟨hanswer, rfl⟩ := Prod.mk.inj hread
    exact congrArg (StreamCall.read b.capacity · :: b.stream.calls) hanswer
  · rename_i answer stream _ hread
    obtain ⟨hanswer, rfl⟩ := Prod.mk.inj hread
    exact congrArg (StreamCall.read b.capacity · :: b.stream.calls) hanswer

/-- A fetch that gives no bytes has found nothing held and leaves nothing held. -/
theorem held_of_fetch_ne {b b' : Buffered} {answer : ReadAnswer} (h : b.fetch = (answer, b'))
    (hne : ∀ bytes, answer ≠ .bytes bytes) : b.held = [] ∧ b'.held = [] := by
  by_cases hheld : b.held = []
  · refine ⟨hheld, ?_⟩
    simp only [fetch, hheld] at h
    split at h
    · cases h
      exact absurd rfl (hne _)
    · cases h
      rfl
  · rw [fetch_of_held hheld] at h
    cases h
    exact absurd rfl (hne _)

/-- A fetch that fails is a read that fails. -/
theorem fetch_failsAfter {b b' : Buffered} {cause : FileError} (h : b.fetch = (.failed cause, b')) :
    b.FailsAfter b' b.stream.calls := by
  obtain ⟨hheld, hheld'⟩ := held_of_fetch_ne h fun bytes hbytes => by cases hbytes
  have hcalls := fetch_calls hheld
  have hcapacity := b.fetch_run.capacity
  rw [h] at hcalls hcapacity
  exact ⟨⟨b.capacity, cause, hcalls⟩, rfl, hheld', hcapacity⟩

/-- The first request for a chunk succeeds without a failed read, or it fails. If it succeeds and
leaves nothing held, the next read will belong to the second request. -/
theorem fetchPatiently_asks {b : Buffered} (h : awaitsSecond b.stream.calls = false) :
    ((∃ bytes, b.fetchPatiently.1 = some bytes) ∧
        failures b.fetchPatiently.2.stream.calls = failures b.stream.calls ∧
        awaitsSecond b.fetchPatiently.2.stream.calls = b.fetchPatiently.2.held.isEmpty) ∨
      ∃ earlier, b.fetchPatiently.1 = none ∧ b.FailsAfter b.fetchPatiently.2 earlier ∧
        awaitsSecond earlier = false := by
  fun_induction fetchPatiently b with
  | case1 b bytes b' hfetch =>
    refine .inl ⟨⟨bytes, rfl⟩, ?_⟩
    by_cases hheld : b.held = []
    · have hcalls := fetch_calls hheld
      rw [hfetch] at hcalls
      rw [hcalls, held_of_fetch hfetch]
      refine ⟨rfl, ?_⟩
      cases bytes with
      | nil => exact congrArg Bool.not h
      | cons c more => rfl
    · rw [fetch_of_held hheld] at hfetch
      cases hfetch
      refine ⟨rfl, ?_⟩
      rw [h]
      exact (List.isEmpty_eq_false_iff.2 hheld).symm
  | case2 b b' hfetch _ ih =>
    obtain ⟨hheld, -⟩ := held_of_fetch_ne hfetch fun bytes hbytes => by cases hbytes
    have hcalls := fetch_calls hheld
    have hrun := b.fetch_run
    rw [hfetch] at hcalls hrun
    have hfailures : failures b'.stream.calls = failures b.stream.calls := by rw [hcalls]; rfl
    rcases ih (by rw [hcalls]; rfl) with ⟨hsome, hsame, hawaits⟩ | ⟨earlier, hnone, hafter, hfirst⟩
    · exact .inl ⟨hsome, hsame.trans hfailures, hawaits⟩
    · exact .inr ⟨earlier, hnone, hafter.since hrun hfailures, hfirst⟩
  | case3 b cause b' hfetch =>
    exact .inr ⟨b.stream.calls, rfl, fetch_failsAfter hfetch, h⟩

/-- The second request meets no failed read, or one that belongs to it. In both cases the next read
will belong to a first request. -/
theorem fetch_asks {b : Buffered} (h : awaitsSecond b.stream.calls = b.held.isEmpty) :
    awaitsSecond b.fetch.2.stream.calls = false ∧
      (failures b.fetch.2.stream.calls = failures b.stream.calls ∨
        (∀ again, b.fetch.1 ≠ .bytes again) ∧ b.FailsAfter b.fetch.2 b.stream.calls ∧
          awaitsSecond b.stream.calls = true) := by
  by_cases hheld : b.held = []
  · rw [hheld, List.isEmpty_nil] at h
    have hcalls := fetch_calls hheld
    cases hanswer : b.fetch.1 with
    | bytes again =>
      rw [hcalls, hanswer]
      refine ⟨?_, .inl rfl⟩
      cases again with
      | nil => exact congrArg Bool.not h
      | cons c more => rfl
    | interrupted =>
      rw [hcalls, hanswer]
      exact ⟨rfl, .inl rfl⟩
    | failed cause =>
      refine ⟨by rw [hcalls, hanswer]; rfl, .inr ⟨?_, fetch_failsAfter (Prod.ext hanswer rfl), h⟩⟩
      intro again hagain
      cases hagain
  · rw [fetch_of_held hheld, h]
    exact ⟨List.isEmpty_eq_false_iff.2 hheld, .inl rfl⟩

end Buffered

namespace Normalized

/-! ## Chunks -/

/-- The calls made on the stream. -/
def calls (n : Normalized) : List StreamCall := n.input.stream.calls

/-- If the first request for a chunk fails, the source is marked and there is no chunk. -/
theorem chunk_of_none {n : Normalized} (hfailed : n.failed = false)
    (hpatient : n.input.fetchPatiently.1 = none) :
    n.chunk = ([], { n with input := n.input.fetchPatiently.2, failed := true }) := by
  have hfetch : n.input.fetchPatiently = (none, n.input.fetchPatiently.2) := Prod.ext hpatient rfl
  rw [chunk, if_neg (by rw [hfailed]; exact Bool.false_ne_true), hfetch]

/-- Asking for a chunk meets no failed read, or it ends with one, which is marked only if it belongs
to the first request. In both cases the next read will belong to a first request. -/
theorem chunk_asks {n : Normalized} (h : awaitsSecond n.calls = false) :
    awaitsSecond n.chunk.2.calls = false ∧
      (failures n.chunk.2.calls = failures n.calls ∨
        ∃ earlier, n.chunk.1 = [] ∧ n.input.FailsAfter n.chunk.2.input earlier ∧
          n.chunk.2.failed = !awaitsSecond earlier) := by
  cases hfailed : n.failed with
  | true =>
    rw [chunk, if_pos hfailed]
    exact ⟨h, .inl rfl⟩
  | false =>
    rcases Buffered.fetchPatiently_asks h with
      ⟨⟨bytes, hsome⟩, hsame, hawaits⟩ | ⟨earlier, hnone, hafter, hfirst⟩
    · obtain ⟨hchunk, -, hnil⟩ := chunk_of_some hfailed hsome
      obtain ⟨hnext, hsecond⟩ := Buffered.fetch_asks hawaits
      rw [hchunk]
      refine ⟨hnext, ?_⟩
      rcases hsecond with hquiet | ⟨hne, hafter, hdue⟩
      · exact .inl (hquiet.trans hsame)
      · refine .inr ⟨_, hnil hne, hafter.since n.input.fetchPatiently_run hsame, ?_⟩
        rw [hdue]
        exact hfailed
    · rw [chunk_of_none hfailed hnone]
      refine ⟨?_, .inr ⟨earlier, rfl, hafter, ?_⟩⟩
      · obtain ⟨size, cause, hcalls⟩ := hafter.last
        rw [calls, hcalls]
        rfl
      · rw [hfirst]
        rfl

/-! ## Rounds and fills -/

/-- What is left behind by an operation that leads from `n` to `n'`, gives `answer`, and has met a
failed read after the calls `earlier`. -/
structure Broken (n : Normalized) (answer : List UInt8) (n' : Normalized)
    (earlier : List StreamCall) : Prop where
  /-- The failed read is the latest call. -/
  input : n.input.FailsAfter n'.input earlier
  /-- It is marked unless it was the second request for a chunk. -/
  marked : n'.failed = !awaitsSecond earlier
  /-- No carriage return is held back any more. -/
  released : n'.heldReturn = false
  /-- At most a carriage return has been handed out. -/
  given : answer = [] ∨ answer = [Byte.carriageReturn]
  /-- It was held back or has been read before the failure, and no other byte has been consumed. -/
  rest : heldBack n.heldReturn ++ n.input.ahead = answer ++ n'.input.ahead

/-- At most one carriage return is held back. -/
theorem heldBack_cases (held : Bool) :
    heldBack held = [] ∨ heldBack held = [Byte.carriageReturn] := by
  cases held with
  | false => exact .inl rfl
  | true => exact .inr rfl

/-- A round meets no failed read, or it is broken by one. In both cases the next read will belong to a
first request. -/
theorem round_asks {n : Normalized} (room : Nat) (h : awaitsSecond n.calls = false) :
    awaitsSecond (n.round room).2.calls = false ∧
      (failures (n.round room).2.calls = failures n.calls ∨
        ∃ earlier, n.Broken (n.round room).1 (n.round room).2 earlier) := by
  obtain ⟨hawaits, hchunk⟩ := chunk_asks h
  by_cases hnil : n.chunk.1 = []
  · rw [round_eq_of_nil room hnil]
    refine ⟨hawaits, ?_⟩
    rcases hchunk with hsame | ⟨earlier, -, hafter, hmarked⟩
    · exact .inl hsame
    · refine .inr ⟨earlier, hafter, hmarked, rfl, heldBack_cases _, ?_⟩
      rw [← n.chunk_ahead]
  · rw [round_of_ne room hnil]
    refine ⟨hawaits, .inl ?_⟩
    rcases hchunk with hsame | ⟨earlier, hempty, -, -⟩
    · exact hsame
    · exact absurd hempty hnil

/-- A round that hands out nothing consumes at most a carriage return, and holds it back. -/
theorem rest_of_round_nil {n : Normalized} {room : Nat} (hroom : 0 < room)
    (h : (n.round room).1 = []) :
    heldBack n.heldReturn ++ n.input.ahead =
      heldBack (n.round room).2.heldReturn ++ (n.round room).2.input.ahead := by
  by_cases hnil : n.chunk.1 = []
  · rw [round_of_nil room hnil] at h ⊢
    split at h
    · cases h
    · rename_i hreturn
      rw [if_neg hreturn, n.chunk_ahead, n.chunk_heldReturn]
  · rw [round_of_ne room hnil] at h ⊢
    have hheld : n.chunk.2.input.held = n.chunk.1 := held_of_chunk rfl hnil
    obtain ⟨hreturn, hchunk, hcollapse⟩ := collapse_of_written_eq_nil hroom hnil h
    have hahead : n.input.ahead = [Byte.carriageReturn] ++ n.chunk.2.input.stream.ahead := by
      rw [← n.chunk_ahead, Buffered.ahead, hheld, hchunk]
    rw [hcollapse, hreturn, hahead]
    simp only [Buffered.ahead, Buffered.consume, hheld, hchunk]
    rfl

/-- A fill meets no failed read, or it is broken by one. In both cases the next read will belong to a
first request. -/
theorem fill_asks {n : Normalized} (room : Nat) (h : awaitsSecond n.calls = false) :
    awaitsSecond (n.fill room).2.calls = false ∧
      (failures (n.fill room).2.calls = failures n.calls ∨
        ∃ earlier, n.Broken (n.fill room).1 (n.fill room).2 earlier) := by
  rcases Nat.eq_zero_or_pos room with rfl | hroom
  · rw [fill, if_pos rfl]
    exact ⟨h, .inl rfl⟩
  · obtain ⟨hawaits, hround⟩ := round_asks room h
    by_cases hnil : (n.round room).1 = []
    · rw [fill_of_round_nil hroom hnil]
      split
      · -- A carriage return has been taken up, and a second round follows the first.
        rename_i hreturn
        obtain ⟨hawaits', hround'⟩ := round_asks room hawaits
        refine ⟨hawaits', ?_⟩
        rcases hround with hsame | ⟨earlier, hbroken⟩
        · rcases hround' with hsame' | ⟨earlier, hbroken⟩
          · exact .inl (hsame'.trans hsame)
          · refine .inr ⟨earlier, hbroken.input.since (n.round_run room) hsame, hbroken.marked,
              hbroken.released, hbroken.given, ?_⟩
            rw [rest_of_round_nil hroom hnil]
            exact hbroken.rest
        · rw [hbroken.released] at hreturn
          exact absurd hreturn Bool.false_ne_true
      · rw [← hnil]
        exact ⟨hawaits, hround⟩
    · rw [fill_of_round_ne hroom hnil]
      exact ⟨hawaits, hround⟩

/-! ## Courses of requests -/

/-- The answers to requests with the given rooms, one after the other. -/
def fills : List Nat → Normalized → List (List UInt8) × Normalized
  | [], n => ([], n)
  | room :: rooms, n =>
    let answer := n.fill room
    let more := fills rooms answer.2
    (answer.1 :: more.1, more.2)

/-- The source of a stream after requests with the given rooms. -/
def course (s : Stream) (capacity : Nat) (rooms : List Nat) : Normalized :=
  (fills rooms (ofStream s capacity)).2

/-- After every course of requests the next read will belong to the first request for a chunk. -/
theorem fills_asks {n : Normalized} (rooms : List Nat) (h : awaitsSecond n.calls = false) :
    awaitsSecond (fills rooms n).2.calls = false := by
  induction rooms generalizing n with
  | nil => exact h
  | cons room rooms ih => exact ih (fill_asks room h).1

/-- From here on every answer is empty, whatever the requests. -/
def Silent (n : Normalized) : Prop :=
  ∀ rooms, ∀ answer ∈ (fills rooms n).1, answer = []

/-- A source that is marked as failed and holds nothing back makes no call and hands out nothing. -/
theorem fills_of_failed {n : Normalized} (hfailed : n.failed = true) (hheld : n.heldReturn = false)
    (rooms : List Nat) : fills rooms n = (rooms.map fun _ => [], n) := by
  have hfill : ∀ room, n.fill room = ([], n) := by
    intro room
    have hround : n.round room = ([], n) := by
      rw [round, chunk, if_pos hfailed]
      simp only [hheld, Bool.false_eq_true, if_false]
    rw [fill, hround]
    simp only [hheld, Bool.false_eq_true, if_false, ite_self]
  induction rooms with
  | nil => rfl
  | cons room rooms ih =>
    rw [fills, hfill room]
    simp only [ih, List.map_cons]

/-- What comes after a fill that has met a failed read. -/
structure Aftermath (n' : Normalized) (earlier : List StreamCall) : Prop where
  /-- A failure of the first request for a chunk ends the source for good. -/
  ended : awaitsSecond earlier = false →
    ∀ later, fills later n' = (later.map fun _ => [], n')
  /-- A failure of the second request is forgotten: the source is as when it was opened, on the
  stream as it is now. -/
  forgotten : awaitsSecond earlier = true → n' = ofStream n'.input.stream n'.input.capacity
  /-- So nothing follows if and only if it was the first request, or the stream has nothing more to
  give. -/
  silent : n'.Silent ↔
    awaitsSecond earlier = false ∨ (ofStream n'.input.stream n'.input.capacity).Silent

/-- What comes after a broken fill. -/
theorem Broken.aftermath {n n' : Normalized} {answer : List UInt8} {earlier : List StreamCall}
    (h : n.Broken answer n' earlier) : Aftermath n' earlier := by
  obtain ⟨⟨stream, capacity, held⟩, heldReturn, failed⟩ := n'
  obtain rfl : held = [] := h.input.held
  obtain rfl : heldReturn = false := h.released
  obtain rfl : failed = !awaitsSecond earlier := h.marked
  have hended : awaitsSecond earlier = false → ∀ later,
      fills later ⟨⟨stream, capacity, []⟩, false, !awaitsSecond earlier⟩ =
        (later.map fun _ => [], ⟨⟨stream, capacity, []⟩, false, !awaitsSecond earlier⟩) := by
    intro hfirst
    exact fills_of_failed (congrArg Bool.not hfirst) rfl
  have hforgotten : awaitsSecond earlier = true →
      (⟨⟨stream, capacity, []⟩, false, !awaitsSecond earlier⟩ : Normalized) =
        ofStream stream capacity := by
    intro hsecond
    rw [hsecond]
    rfl
  refine ⟨hended, hforgotten, ?_, ?_⟩
  · intro hsilent
    cases hawaits : awaitsSecond earlier with
    | false => exact .inl rfl
    | true =>
      rw [hforgotten hawaits] at hsilent
      exact .inr hsilent
  · intro hwhy rooms answer hmem
    cases hawaits : awaitsSecond earlier with
    | false =>
      rw [hended hawaits] at hmem
      obtain ⟨room, -, rfl⟩ := List.mem_map.1 hmem
      rfl
    | true =>
      rw [hforgotten hawaits] at hmem
      rw [hawaits] at hwhy
      rcases hwhy with hfirst | hsilent
      · exact absurd hfirst.symm Bool.false_ne_true
      · exact hsilent rooms answer hmem

/-- Every fill in which a read fails, in whatever course of requests to a stream on which no call has
been made before, is broken by it. -/
theorem fill_broken {s : Stream} (hcalls : s.calls = []) (capacity : Nat) (rooms : List Nat)
    (room : Nat) (h : failures (course s capacity rooms).calls <
      failures ((course s capacity rooms).fill room).2.calls) :
    ∃ earlier,
      (course s capacity rooms).Broken ((course s capacity rooms).fill room).1
        ((course s capacity rooms).fill room).2 earlier ∧
      Aftermath ((course s capacity rooms).fill room).2 earlier := by
  have hstart : awaitsSecond (ofStream s capacity).calls = false := by
    show awaitsSecond s.calls = false
    rw [hcalls]
    rfl
  obtain ⟨-, hsame | ⟨earlier, hbroken⟩⟩ := fill_asks room (fills_asks rooms hstart)
  · exact absurd h (Nat.not_lt_of_le (Nat.le_of_eq hsame))
  · exact ⟨earlier, hbroken, hbroken.aftermath⟩

/-- A read that fails behind a carriage return lets that one out, and nothing more. -/
theorem fill_broken_after_return :
    ((course ⟨[Byte.carriageReturn, 0x61], 0,
        [.upTo 1, .failed (.other 5 "Input/output error")], none, [], []⟩ 8 []).fill 4).1 =
        [Byte.carriageReturn] ∧
      ((course ⟨[Byte.carriageReturn, 0x61], 0,
        [.upTo 1, .failed (.other 5 "Input/output error")], none, [], []⟩ 8 []).fill 4).2.Silent := by
  obtain ⟨earlier, hbroken, haftermath⟩ := fill_broken
    (s := ⟨[Byte.carriageReturn, 0x61], 0,
      [.upTo 1, .failed (.other 5 "Input/output error")], none, [], []⟩)
    rfl 8 [] 4 (by decide +kernel)
  obtain ⟨size, cause, hlast⟩ := hbroken.input.last
  have hearlier : earlier = [.read 8 (.bytes [Byte.carriageReturn])] := by
    have htail := congrArg List.tail hlast
    exact htail.symm.trans (by decide +kernel)
  refine ⟨by decide +kernel, haftermath.silent.2 (.inl ?_)⟩
  rw [hearlier]
  rfl

/-- A read that gives nothing and then one that fails: the failure is forgotten, and the next fill
hands out the bytes that are read after it. -/
theorem second_failure_forgotten :
    failures (course ⟨[0x61, 0x62], 0,
        [.upTo 0, .failed (.other 5 "Input/output error")], none, [], []⟩ 8 [4]).calls = 1 ∧
      (fills [4, 4] (ofStream ⟨[0x61, 0x62], 0,
        [.upTo 0, .failed (.other 5 "Input/output error")], none, [], []⟩ 8)).1 =
        [[], [0x61, 0x62]] := by
  constructor
  · decide +kernel
  · decide +kernel

end Normalized

end Listfile
