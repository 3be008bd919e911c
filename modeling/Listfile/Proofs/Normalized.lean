import Listfile.Proofs.Delivery
import Listfile.Proofs.Stream
import Listfile.Source.Normalized

/-!
# Normalised streams deliver the normalised data

`normalize` leaves out each carriage return before a newline, looking at the whole input. A
normalised stream does the same piece by piece: reads end where they like, a fill ends where the room
does, and a carriage return at either end waits for the byte after it.

What a normalised stream still has to hand out is `Normalized.pending`: the carriage return held back
and the bytes ahead, normalised together. One round takes its answer off that (`round_of_honest`), and
so does a fill, which is never empty before nothing is pending (`fill_of_honest`). All of this is
said of honest streams; the stream's own calls tell whether it is one, and a source that is sound
after an answer was so before it (`accounts`).
-/

namespace Listfile

/-! ## Carriage returns before newlines -/

/-- The input without each carriage return that stands before a newline. Every other byte stays. -/
def normalize : List UInt8 → List UInt8
  | [] => []
  | b :: rest =>
    if b = Byte.carriageReturn ∧ rest.head? = some Byte.newline then normalize rest
    else b :: normalize rest

/-- Any byte but a carriage return stays. -/
theorem normalize_cons_of_ne {b : UInt8} (h : b ≠ Byte.carriageReturn) (rest : List UInt8) :
    normalize (b :: rest) = b :: normalize rest := by
  rw [normalize, if_neg fun hboth => h hboth.1]

/-- A carriage return before a newline is left out. -/
theorem normalize_return_newline (rest : List UInt8) :
    normalize (Byte.carriageReturn :: Byte.newline :: rest) = Byte.newline :: normalize rest := by
  rw [normalize, if_pos ⟨rfl, rfl⟩, normalize_cons_of_ne (by decide)]

/-- A carriage return before anything else stays. -/
theorem normalize_return_of_ne {rest : List UInt8} (h : rest.head? ≠ some Byte.newline) :
    normalize (Byte.carriageReturn :: rest) = Byte.carriageReturn :: normalize rest := by
  rw [normalize, if_neg fun hboth => h hboth.2]

/-- The carriage return held back, if there is one. -/
def heldBack (held : Bool) : List UInt8 :=
  if held then [Byte.carriageReturn] else []

/-- The first bytes of a chunk, followed by some of those after them, begin as the chunk does. -/
theorem head?_take_append {b c : UInt8} {tail more rest : List UInt8} {n : Nat}
    (h : more <+: (b :: tail).drop n ++ rest)
    (hc : ((b :: tail).take n ++ more).head? = some c) : c = b := by
  obtain ⟨others, hothers⟩ := List.head?_eq_some_iff.1 hc
  have hnext := (List.prefix_append_right_inj ((b :: tail).take n)).2 h
  rw [← List.append_assoc, List.take_append_drop, hothers, List.cons_append,
    List.cons_prefix_cons] at hnext
  exact hnext.1

/-- What a chunk contributes is what normalising takes off the front, when the bytes used up are
followed by some of those that come after them. -/
theorem normalize_collapse_take (held : Bool) (room : Nat) (chunk : List UInt8)
    {more rest : List UInt8}
    (h : more <+: chunk.drop (collapse held room chunk).used ++ rest) :
    normalize (heldBack held ++ (chunk.take (collapse held room chunk).used ++ more)) =
      (collapse held room chunk).written ++
        normalize (heldBack (collapse held room chunk).held ++ more) := by
  fun_induction collapse held room chunk with
  | case1 held chunk => rfl
  | case2 held room hroom => rfl
  | case3 room tail ih =>
    show normalize (Byte.carriageReturn :: Byte.newline :: (tail.take _ ++ more)) = _
    rw [normalize_return_newline]
    exact congrArg (Byte.newline :: ·) (ih h)
  | case4 room b tail hb ih =>
    -- The byte that lets the carriage return out need not be used up itself, but it comes next.
    have hhead : ((b :: tail).take (collapse false room (b :: tail)).used ++ more).head? ≠
        some Byte.newline := by
      intro hnewline
      exact hb (head?_take_append h hnewline).symm
    show normalize (Byte.carriageReturn ::
      ((b :: tail).take (collapse false room (b :: tail)).used ++ more)) = _
    rw [normalize_return_of_ne hhead]
    exact congrArg (Byte.carriageReturn :: ·) (ih h)
  | case5 held room tail hheld ih =>
    obtain rfl : held = false := Bool.eq_false_iff.2 hheld
    exact ih h
  | case6 held room b tail hheld hb ih =>
    obtain rfl : held = false := Bool.eq_false_iff.2 hheld
    show normalize (b :: (tail.take _ ++ more)) = _
    rw [normalize_cons_of_ne hb]
    exact congrArg (b :: ·) (ih h)

/-- What a chunk contributes is what normalising takes off the front, whatever follows the chunk. -/
theorem normalize_collapse (held : Bool) (room : Nat) (chunk rest : List UInt8) :
    normalize (heldBack held ++ (chunk ++ rest)) =
      (collapse held room chunk).written ++
        normalize (heldBack (collapse held room chunk).held ++
          (chunk.drop (collapse held room chunk).used ++ rest)) := by
  have hwhole := normalize_collapse_take held room chunk
    (List.prefix_refl (chunk.drop (collapse held room chunk).used ++ rest))
  rwa [← List.append_assoc (chunk.take _), List.take_append_drop] at hwhole

/-- A carriage return held back is let out or replaced as soon as there is room and a byte. -/
theorem written_ne_nil_of_held {room : Nat} {chunk : List UInt8} (hroom : 0 < room)
    (hchunk : chunk ≠ []) : (collapse true room chunk).written ≠ [] := by
  obtain ⟨room, rfl⟩ : ∃ n, room = n + 1 := ⟨room - 1, by omega⟩
  obtain ⟨b, rest, rfl⟩ := List.exists_cons_of_ne_nil hchunk
  rw [collapse.eq_def]
  simp only [if_true]
  split <;> exact List.cons_ne_nil _ _

/-- A chunk that contributes nothing is a carriage return, which is now held back. -/
theorem collapse_of_written_eq_nil {held : Bool} {room : Nat} {chunk : List UInt8} (hroom : 0 < room)
    (hchunk : chunk ≠ []) (h : (collapse held room chunk).written = []) :
    held = false ∧ chunk = [Byte.carriageReturn] ∧ collapse held room chunk = ⟨[], 1, true⟩ := by
  obtain ⟨room, rfl⟩ : ∃ n, room = n + 1 := ⟨room - 1, by omega⟩
  obtain ⟨b, rest, rfl⟩ := List.exists_cons_of_ne_nil hchunk
  cases held with
  | true => exact absurd h (written_ne_nil_of_held hroom hchunk)
  | false =>
    rw [collapse.eq_def] at h ⊢
    simp only [Bool.false_eq_true, if_false] at h ⊢
    split at h
    · rename_i hreturn
      rw [if_pos hreturn]
      cases rest with
      | nil => simp [hreturn, collapse, Collapsed.use]
      | cons c rest => exact absurd h (written_ne_nil_of_held hroom (List.cons_ne_nil c rest))
    · cases h

/-! ## Buffers -/

namespace Buffered

/-- The buffer `b` becomes `b'` by calls on its stream. -/
structure Run (b b' : Buffered) : Prop where
  /-- Each read asks for the same number of bytes. -/
  capacity : b'.capacity = b.capacity
  /-- The stream has been run. -/
  stream : 0 < b.capacity → b.stream.Run b'.stream

/-- No call is made. -/
theorem Run.refl (b : Buffered) : b.Run b :=
  ⟨rfl, fun _ => .stay _⟩

/-- Calls can be made one after the other. -/
theorem Run.trans {b b₁ b' : Buffered} (first : b.Run b₁) (second : b₁.Run b') : b.Run b' := by
  refine ⟨second.capacity.trans first.capacity, ?_⟩
  intro hpos
  refine (first.stream hpos).trans (second.stream ?_)
  rw [first.capacity]
  exact hpos

/-- What is held is fetched without a call. -/
theorem fetch_of_held {b : Buffered} (h : b.held ≠ []) : b.fetch = (.bytes b.held, b) := by
  obtain ⟨c, more, hcons⟩ := List.exists_cons_of_ne_nil h
  simp only [fetch, hcons]

/-- Fetching is a run. -/
theorem fetch_run (b : Buffered) : b.Run b.fetch.2 := by
  unfold fetch
  split
  · exact .refl b
  · split <;> rename_i hread
    · refine ⟨rfl, ?_⟩
      intro hpos
      have hrun := b.stream.read_run hpos
      rwa [hread] at hrun
    · refine ⟨rfl, ?_⟩
      intro hpos
      have hrun := b.stream.read_run hpos
      rwa [hread] at hrun

/-- Fetching patiently is a run. -/
theorem fetchPatiently_run (b : Buffered) : b.Run b.fetchPatiently.2 := by
  fun_induction fetchPatiently b with
  | case1 b bytes b' hfetch =>
    have hrun := b.fetch_run
    rwa [hfetch] at hrun
  | case2 b b' hfetch _ ih =>
    have hrun := b.fetch_run
    rw [hfetch] at hrun
    exact hrun.trans ih
  | case3 b cause b' hfetch =>
    have hrun := b.fetch_run
    rwa [hfetch] at hrun

/-- An honest stream gives bytes through its buffer, unless none are left, or is interrupted. -/
theorem fetch_of_honest {b b' : Buffered} {answer : ReadAnswer} (hfetch : b.fetch = (answer, b'))
    (hstep : b.stream.InStep) (h : Honest b.stream.data b'.stream.calls) :
    answer = .interrupted ∨ ∃ bytes, answer = .bytes bytes ∧ (bytes = [] → b.ahead = []) := by
  unfold fetch at hfetch
  split at hfetch
  · rename_i c more hheld
    cases hfetch
    refine .inr ⟨b.held, rfl, ?_⟩
    intro hnil
    rw [hnil] at hheld
    cases hheld
  · rename_i hheld
    have hahead : b.ahead = b.stream.ahead := by rw [ahead, hheld, List.nil_append]
    split at hfetch
    · rename_i bytes stream hread
      cases hfetch
      rw [hahead]
      exact Stream.read_of_honest hread hstep h
    · rename_i answer' stream hne hread
      cases hfetch
      rw [hahead]
      exact Stream.read_of_honest hread hstep h

/-- An honest stream gives bytes to one who is patient, unless none are left. -/
theorem fetchPatiently_of_honest {b : Buffered} (hpos : 0 < b.capacity) (hstep : b.stream.InStep)
    (h : Honest b.stream.data b.fetchPatiently.2.stream.calls) :
    ∃ bytes, b.fetchPatiently.1 = some bytes ∧ b.fetchPatiently.2.held = bytes ∧
      (bytes = [] → b.ahead = []) := by
  fun_induction fetchPatiently b with
  | case1 b bytes b' hfetch =>
    refine ⟨bytes, rfl, held_of_fetch hfetch, ?_⟩
    rcases fetch_of_honest hfetch hstep h with hinterrupted | ⟨_, hbytes, hend⟩
    · cases hinterrupted
    · cases hbytes
      exact hend
  | case2 b b' hfetch _ ih =>
    have hrun := b.fetch_run
    have hahead := b.ahead_fetch
    rw [hfetch] at hrun hahead
    rw [← hahead]
    have hstream := hrun.stream hpos
    rw [← hstream.data] at h
    refine ih ?_ (hstream.inStep hstep) h
    rw [hrun.capacity]
    exact hpos
  | case3 b cause b' hfetch =>
    rcases fetch_of_honest hfetch hstep h with hinterrupted | ⟨_, hbytes, -⟩
    · cases hinterrupted
    · cases hbytes

end Buffered

namespace Normalized

/-! ## Calls on the stream -/

/-- After the patient request for a chunk, the second one is a run. -/
theorem fetchPatiently_run_chunk {n : Normalized} (hfailed : n.failed = false) :
    n.input.fetchPatiently.2.Run n.chunk.2.input := by
  rw [chunk, if_neg (by rw [hfailed]; exact Bool.false_ne_true)]
  split
  · rename_i input hpatient
    rw [hpatient]
    exact .refl input
  · rename_i bytes input hpatient
    rw [hpatient]
    have hsecond := input.fetch_run
    split <;> rename_i hagain <;> rw [hagain] at hsecond <;> exact hsecond

/-- Asking for a chunk is a run. -/
theorem chunk_run (n : Normalized) : n.input.Run n.chunk.2.input := by
  cases hfailed : n.failed with
  | true =>
    rw [chunk, if_pos hfailed]
    exact .refl _
  | false => exact n.input.fetchPatiently_run.trans (fetchPatiently_run_chunk hfailed)

/-- A round is a run. -/
theorem round_run (n : Normalized) (room : Nat) : n.input.Run (n.round room).2.input := by
  have hchunk := n.chunk_run
  unfold round
  split <;> rename_i heq <;> rw [heq] at hchunk
  · split <;> exact hchunk
  · exact ⟨hchunk.capacity, hchunk.stream⟩

/-- A fill is a run. -/
theorem fill_run (n : Normalized) (room : Nat) : n.input.Run (n.fill room).2.input := by
  have hfirst := n.round_run room
  unfold fill
  split
  · exact .refl _
  · split
    · rename_i n' hround
      rw [hround] at hfirst
      split
      · exact hfirst.trans (n'.round_run room)
      · exact hfirst
    · exact hfirst

/-- Nothing has gone wrong with the stream. -/
structure Sound (n : Normalized) : Prop where
  /-- Each read asks for bytes. -/
  capacity : 0 < n.input.capacity
  /-- All calls have been honest. -/
  honest : Honest n.input.stream.data n.input.stream.calls

/-- A source that is sound after calls was so before. -/
theorem Sound.before {n n' : Normalized} (h : n'.Sound) (run : n.input.Run n'.input) :
    n.Sound ∧ n.input.stream.Run n'.input.stream := by
  have hpos : 0 < n.input.capacity := by
    rw [← run.capacity]
    exact h.capacity
  have hstream := run.stream hpos
  exact ⟨⟨hpos, hstream.honest_before h.honest⟩, hstream⟩

/-! ## Rounds and fills -/

/-- What is still to be handed out: the carriage return held back and the bytes ahead, normalised. -/
def pending (n : Normalized) : List UInt8 :=
  normalize (heldBack n.heldReturn ++ n.input.ahead)

/-- The position is in step, and no read has failed. -/
structure Open (n : Normalized) : Prop where
  /-- The position of the stream is the one that its calls have led to. -/
  inStep : n.input.stream.InStep
  /-- No read has failed. -/
  failed : n.failed = false

/-- Asking for a chunk hands out nothing. -/
theorem chunk_pending (n : Normalized) : n.chunk.2.pending = n.pending := by
  rw [pending, pending, n.chunk_heldReturn, n.chunk_ahead]

/-- If the patient request has succeeded, the chunk is what the second request gives. -/
theorem chunk_of_some {n : Normalized} {bytes : List UInt8} (hfailed : n.failed = false)
    (hpatient : n.input.fetchPatiently.1 = some bytes) :
    n.chunk.2 = { n with input := n.input.fetchPatiently.2.fetch.2 } ∧
      (∀ again, n.input.fetchPatiently.2.fetch.1 = .bytes again → n.chunk.1 = again) ∧
      ((∀ again, n.input.fetchPatiently.2.fetch.1 ≠ .bytes again) → n.chunk.1 = []) := by
  have hfetch : n.input.fetchPatiently = (some bytes, n.input.fetchPatiently.2) :=
    Prod.ext hpatient rfl
  rw [chunk, if_neg (by rw [hfailed]; exact Bool.false_ne_true), hfetch]
  simp only
  split
  · rename_i again input hagain
    rw [hagain]
    exact ⟨rfl, fun _ hsame => ReadAnswer.bytes.inj hsame, fun hne => absurd rfl (hne again)⟩
  · rename_i answer input hne hagain
    rw [hagain]
    exact ⟨rfl, fun again hsame => absurd hsame (hne again), fun _ => rfl⟩

/-- If the chunk is empty all the same, the patient request has found nothing. -/
theorem held_of_chunk_nil {n : Normalized} {bytes : List UInt8} (hfailed : n.failed = false)
    (hpatient : n.input.fetchPatiently.1 = some bytes) (h : n.chunk.1 = []) :
    n.input.fetchPatiently.2.held = [] := by
  apply Classical.byContradiction
  intro hne
  obtain ⟨-, hagain, -⟩ := chunk_of_some hfailed hpatient
  rw [hagain _ (congrArg Prod.fst (Buffered.fetch_of_held hne))] at h
  exact hne h

/-- A chunk of an honest stream has bytes, unless none are left. -/
theorem chunk_of_honest {n : Normalized} (hopen : n.Open) (h : n.chunk.2.Sound) :
    n.chunk.2.Open ∧ (n.chunk.1 = [] → n.input.ahead = []) := by
  obtain ⟨hsound, hstream⟩ := h.before n.chunk_run
  have hpatient := n.input.fetchPatiently_run
  have hhonest : Honest n.input.stream.data n.input.fetchPatiently.2.stream.calls := by
    rw [← (hpatient.stream hsound.capacity).data]
    refine Stream.Run.honest_before ?_ h.honest
    apply (fetchPatiently_run_chunk hopen.failed).stream
    rw [hpatient.capacity]
    exact hsound.capacity
  obtain ⟨bytes, hsome, hheld, hend⟩ :=
    Buffered.fetchPatiently_of_honest hsound.capacity hopen.inStep hhonest
  obtain ⟨hchunk, -, -⟩ := chunk_of_some hopen.failed hsome
  have hfailed : n.chunk.2.failed = false := by
    rw [hchunk]
    exact hopen.failed
  refine ⟨⟨hstream.inStep hopen.inStep, hfailed⟩, fun hnil => hend ?_⟩
  rw [← hheld]
  exact held_of_chunk_nil hopen.failed hsome hnil

/-- A round without a chunk lets out the carriage return held back. -/
theorem round_of_nil {n : Normalized} (room : Nat) (h : n.chunk.1 = []) :
    n.round room = if n.heldReturn then
      ([Byte.carriageReturn], { n.chunk.2 with heldReturn := false }) else ([], n.chunk.2) := by
  have hchunk : n.chunk = ([], n.chunk.2) := Prod.ext h rfl
  rw [round, hchunk]
  simp only [← n.chunk_heldReturn]

/-- A round without a chunk holds nothing back afterwards. -/
theorem round_eq_of_nil {n : Normalized} (room : Nat) (h : n.chunk.1 = []) :
    n.round room = (heldBack n.heldReturn, { n.chunk.2 with heldReturn := false }) := by
  have hheld := n.chunk_heldReturn
  rw [round_of_nil room h, heldBack]
  split
  · rfl
  · rename_i hreturn
    rw [Bool.not_eq_true] at hreturn
    rw [hreturn] at hheld
    rw [← hheld]

/-- A round with a chunk hands out what the chunk contributes. -/
theorem round_of_ne {n : Normalized} (room : Nat) (h : n.chunk.1 ≠ []) :
    n.round room = ((collapse n.heldReturn room n.chunk.1).written,
      { n.chunk.2 with
        input := n.chunk.2.input.consume (collapse n.heldReturn room n.chunk.1).used
        heldReturn := (collapse n.heldReturn room n.chunk.1).held }) := by
  have hheld := n.chunk_heldReturn
  unfold round
  split
  · rename_i n' hchunk
    rw [hchunk] at h
    exact absurd rfl h
  · rename_i bytes n' hne hchunk
    rw [hchunk] at hheld ⊢
    simp only [← hheld]

/-- A round with a carriage return held back hands out bytes. -/
theorem round_ne_nil_of_held {n : Normalized} {room : Nat} (hroom : 0 < room)
    (h : n.heldReturn = true) : (n.round room).1 ≠ [] := by
  by_cases hnil : n.chunk.1 = []
  · rw [round_of_nil room hnil, if_pos h]
    exact List.cons_ne_nil _ _
  · rw [round_of_ne room hnil, h]
    exact written_ne_nil_of_held hroom hnil

/-- A round on an honest stream takes what it hands out off what is pending. If it hands out nothing
and holds nothing back, then nothing was pending. -/
theorem round_of_honest {n : Normalized} {room : Nat} (hroom : 0 < room) (hopen : n.Open)
    (h : (n.round room).2.Sound) :
    (n.round room).2.Open ∧ n.pending = (n.round room).1 ++ (n.round room).2.pending ∧
      ((n.round room).1 = [] → (n.round room).2.heldReturn = false → n.pending = []) := by
  by_cases hnil : n.chunk.1 = []
  · have hround := n.round_of_nil room hnil
    cases hheld : n.heldReturn with
    | true =>
      rw [hheld, if_pos rfl] at hround
      rw [hround] at h ⊢
      obtain ⟨hchunk, hend⟩ := chunk_of_honest hopen ⟨h.capacity, h.honest⟩
      have hahead := n.chunk_ahead
      rw [hend hnil] at hahead
      refine ⟨⟨hchunk.inStep, hchunk.failed⟩, ?_, fun hcons => ?_⟩
      · simp only [pending, hheld, hahead, hend hnil]
        rfl
      · cases hcons
    | false =>
      rw [hheld, if_neg Bool.false_ne_true] at hround
      rw [hround] at h ⊢
      obtain ⟨hchunk, hend⟩ := chunk_of_honest hopen h
      have hpending : n.pending = [] := by
        simp only [pending, hheld, hend hnil]
        rfl
      refine ⟨hchunk, ?_, fun _ _ => hpending⟩
      exact n.chunk_pending.symm
  · have hround := n.round_of_ne room hnil
    rw [hround] at h ⊢
    obtain ⟨hchunk, -⟩ := chunk_of_honest hopen ⟨h.capacity, h.honest⟩
    refine ⟨⟨hchunk.inStep, hchunk.failed⟩, ?_, fun hwritten hheld => ?_⟩
    · have hheld : n.chunk.2.input.held = n.chunk.1 := held_of_chunk rfl hnil
      have hsplit := normalize_collapse n.heldReturn room n.chunk.1 n.chunk.2.input.stream.ahead
      rw [pending, ← n.chunk_ahead, Buffered.ahead, hheld, hsplit, pending]
      simp only [Buffered.ahead, Buffered.consume, hheld]
    · obtain ⟨-, -, hcollapse⟩ := collapse_of_written_eq_nil hroom hnil hwritten
      rw [hcollapse] at hheld
      cases hheld

/-- A fill is one round, if that hands out bytes. -/
theorem fill_of_round_ne {n : Normalized} {room : Nat} (hroom : 0 < room)
    (h : (n.round room).1 ≠ []) : n.fill room = n.round room := by
  rw [fill, if_neg (by omega)]
  split
  · rename_i n' hround
    rw [hround] at h
    exact absurd rfl h
  · rfl

/-- Otherwise it is a second round, if a carriage return is held back now. -/
theorem fill_of_round_nil {n : Normalized} {room : Nat} (hroom : 0 < room)
    (h : (n.round room).1 = []) :
    n.fill room = if (n.round room).2.heldReturn then (n.round room).2.round room
      else ([], (n.round room).2) := by
  have hround : n.round room = ([], (n.round room).2) := Prod.ext h rfl
  rw [fill, if_neg (by omega), hround]

/-- A fill on an honest stream takes what it hands out off what is pending, and hands out nothing
only if nothing is pending. -/
theorem fill_of_honest {n : Normalized} {room : Nat} (hroom : 0 < room) (hopen : n.Open)
    (h : (n.fill room).2.Sound) :
    (n.fill room).2.Open ∧ n.pending = (n.fill room).1 ++ (n.fill room).2.pending ∧
      ((n.fill room).1 = [] → n.pending = []) := by
  by_cases hnil : (n.round room).1 = []
  · rw [fill_of_round_nil hroom hnil] at h ⊢
    cases hheld : (n.round room).2.heldReturn with
    | true =>
      rw [hheld, if_pos rfl] at h
      rw [if_pos rfl]
      have hfirst := (h.before ((n.round room).2.round_run room)).1
      obtain ⟨hopen', hpending, -⟩ := round_of_honest hroom hopen hfirst
      obtain ⟨hopen'', hpending', -⟩ := round_of_honest hroom hopen' h
      rw [hnil, List.nil_append, hpending'] at hpending
      refine ⟨hopen'', hpending, ?_⟩
      intro hempty
      exact absurd hempty (round_ne_nil_of_held hroom hheld)
    | false =>
      rw [hheld, if_neg Bool.false_ne_true] at h
      rw [if_neg Bool.false_ne_true]
      obtain ⟨hopen', hpending, hend⟩ := round_of_honest hroom hopen h
      rw [hnil] at hpending
      exact ⟨hopen', hpending, fun _ => hend hnil hheld⟩
  · rw [fill_of_round_ne hroom hnil] at h ⊢
    obtain ⟨hopen', hpending, -⟩ := round_of_honest hroom hopen h
    exact ⟨hopen', hpending, fun hempty => absurd hempty hnil⟩

/-- As long as it is sound, a normalised stream accounts for what is pending. -/
theorem accounts : Source.Accounts Sound fun n bytes => n.Open ∧ bytes = n.pending := by
  constructor
  · intro n room h
    exact (h.before (n.fill_run room)).1
  · intro n bytes room hopen hroom hsound
    obtain ⟨hopen, rfl⟩ := hopen
    obtain ⟨hopen', hpending, hend⟩ := fill_of_honest hroom hopen hsound
    by_cases hnil : (Source.fill n room).1 = []
    · exact .inl ⟨hnil, hend hnil⟩
    · exact .inr ⟨_, hnil, hpending, hopen', rfl⟩

end Normalized

end Listfile
