import Listfile.Proofs.Bom

/-!
# Sniffing gives back what it has looked at

The mark of a stream shows in its first bytes, and more of them have to be read than a short mark
has. On the way reads may be short, be interrupted, give nothing or fail, and the move that gives the
bytes back may fail too. This module says which mark is found and where the stream is left, for every
stream that stands at its start.

* `HeadRead reads head failed`: the reads that are made and the bytes which they have given. They go
  on until the head is full, a read gives nothing, or a read fails.
* `IsLongestMark head mark`: of all marks, `mark` has the longest marker with which the head starts.
  The absent mark has the empty one, so it is the longest where no other marker stands.
* `Sniffs`: all that can be said of one call, by how the reads and the move have turned out.
  `sniff_exact` says it of every stream at its start.

The reads are followed one by one: each leaves the stream behind the bytes that have been read so far
(`Looked`).
-/

namespace Listfile.Bom

/-! ## The reads for the head -/

/-- Reads for the head after which a further one may be made, the latest first, and the bytes that
they have given. Each has asked for what was missing and has given bytes or was interrupted. -/
inductive HeadSoFar : List StreamCall → List UInt8 → Prop where
  /-- No read has been made. -/
  | start : HeadSoFar [] []
  /-- A read has given bytes. -/
  | bytes {reads : List StreamCall} {head bytes : List UInt8} (earlier : HeadSoFar reads head)
      (missing : head.length < headLength) (ne_nil : bytes ≠ []) :
      HeadSoFar (.read (headLength - head.length) (.bytes bytes) :: reads) (head ++ bytes)
  /-- A read was interrupted. -/
  | interrupted {reads : List StreamCall} {head : List UInt8} (earlier : HeadSoFar reads head)
      (missing : head.length < headLength) :
      HeadSoFar (.read (headLength - head.length) .interrupted :: reads) head

/-- All reads for the head, the latest first, the bytes that they have given, and whether the last of
them has failed. -/
inductive HeadRead : List StreamCall → List UInt8 → Bool → Prop where
  /-- The head is full. -/
  | full {reads : List StreamCall} {head : List UInt8} (earlier : HeadSoFar reads head)
      (complete : headLength ≤ head.length) : HeadRead reads head false
  /-- The last read has given nothing. -/
  | dry {reads : List StreamCall} {head : List UInt8} (earlier : HeadSoFar reads head)
      (missing : head.length < headLength) :
      HeadRead (.read (headLength - head.length) (.bytes []) :: reads) head false
  /-- The last read has failed. -/
  | failed {reads : List StreamCall} {head : List UInt8} (earlier : HeadSoFar reads head)
      (missing : head.length < headLength) (cause : FileError) :
      HeadRead (.read (headLength - head.length) (.failed cause) :: reads) head true

/-- The stream `s` has become `s'` by the given reads, which have given its first bytes. -/
structure Looked (s : Stream) (reads : List StreamCall) (head : List UInt8) (s' : Stream) :
    Prop where
  /-- These reads are the only calls. -/
  calls : s'.calls = reads ++ s.calls
  /-- The data are the same. -/
  data : s'.data = s.data
  /-- No move has been made. -/
  seeks : s'.seeks = s.seeks
  /-- The data start with the bytes read. -/
  start : head <+: s.data
  /-- There are not more of them than decide the mark. -/
  length : head.length ≤ headLength
  /-- The stream stands behind them. -/
  position : s'.position = head.length

/-- A read gives no more bytes than it asks for. -/
theorem length_le_of_read {s s' : Stream} {size : Nat} {bytes : List UInt8}
    (h : s.read size = (.bytes bytes, s')) : bytes.length ≤ size := by
  obtain ⟨hanswer, -⟩ := Prod.mk.inj h
  unfold Stream.answer at hanswer
  split at hanswer
  · rename_i n _
    rw [← ReadAnswer.bytes.inj hanswer, List.length_take]
    omega
  · cases hanswer
  · cases hanswer

/-- A read that gives bytes leaves the stream behind these. -/
theorem Looked.read_bytes {s s₁ s₂ : Stream} {reads : List StreamCall} {head bytes : List UInt8}
    (h : Looked s reads head s₁)
    (hread : s₁.read (headLength - head.length) = (.bytes bytes, s₂)) :
    Looked s (.read (headLength - head.length) (.bytes bytes) :: reads) (head ++ bytes) s₂ := by
  have hahead := Stream.ahead_eq_of_read hread
  have hlength := length_le_of_read hread
  have hfits := h.length
  -- The bytes ahead are those of the data behind the head.
  have hdata : s.data = head ++ s₁.ahead := by
    obtain ⟨rest, hrest⟩ := h.start
    rw [Stream.ahead, h.data, h.position, ← hrest, List.drop_left]
  obtain ⟨hanswer, rfl⟩ := Prod.mk.inj hread
  refine ⟨?_, h.data, h.seeks, ?_, ?_, ?_⟩
  · simp only [hanswer, h.calls, List.cons_append]
  · rw [hdata, hahead, ← List.append_assoc]
    exact List.prefix_append _ _
  · rw [List.length_append]
    omega
  · simp only [hanswer, h.position, List.length_append]

/-- A read that is interrupted or fails leaves the stream where it stands. -/
theorem Looked.read_ne {s s₁ s₂ : Stream} {reads : List StreamCall} {head : List UInt8} {size : Nat}
    {answer : ReadAnswer} (h : Looked s reads head s₁) (hread : s₁.read size = (answer, s₂))
    (hne : ∀ bytes, answer ≠ .bytes bytes) : Looked s (.read size answer :: reads) head s₂ := by
  obtain ⟨hanswer, rfl⟩ := Prod.mk.inj hread
  refine ⟨?_, h.data, h.seeks, h.start, h.length, ?_⟩
  · simp only [hanswer, h.calls, List.cons_append]
  · cases answer with
    | bytes bytes => exact absurd rfl (hne bytes)
    | interrupted => simp only [hanswer, h.position, Nat.add_zero]
    | failed cause => simp only [hanswer, h.position, Nat.add_zero]

/-- Reading the head makes all reads for it, and gives the head unless the last of them fails. -/
theorem readHead_looked {s s₁ : Stream} {reads : List StreamCall} {head : List UInt8}
    (h : Looked s reads head s₁) (hreads : HeadSoFar reads head) :
    ∃ reads' head' failed, Looked s reads' head' (readHead s₁ head).2 ∧
      HeadRead reads' head' failed ∧
      (readHead s₁ head).1 = if failed then none else some head' := by
  fun_induction readHead s₁ head generalizing reads with
  | case1 s₁ head hroom s₂ hread =>
    have hlooked := h.read_bytes hread
    rw [List.append_nil] at hlooked
    exact ⟨_, head, false, hlooked, .dry hreads hroom, rfl⟩
  | case2 s₁ head hroom b more s₂ hread _ ih =>
    exact ih (h.read_bytes hread) (.bytes hreads hroom (List.cons_ne_nil b more))
  | case3 s₁ head hroom s₂ hread _ ih =>
    refine ih (h.read_ne hread ?_) (.interrupted hreads hroom)
    intro bytes hbytes
    cases hbytes
  | case4 s₁ head hroom cause s₂ hread =>
    refine ⟨_, head, true, h.read_ne hread ?_, .failed hreads hroom cause, rfl⟩
    intro bytes hbytes
    cases hbytes
  | case5 s₁ head hroom =>
    exact ⟨reads, head, false, h, .full hreads (Nat.le_of_not_lt hroom), rfl⟩

/-! ## The longest mark -/

/-- The head starts with the marker of `mark` and with no longer one. -/
structure IsLongestMark (head : List UInt8) (mark : Bom) : Prop where
  /-- It is a mark, or there is none. -/
  ne_broken : mark ≠ broken
  /-- The marker stands there. -/
  found : mark.marker <+: head
  /-- No marker that stands there is longer. -/
  longest : ∀ other : Bom, other.marker <+: head → other.marker.length ≤ mark.marker.length

/-- A marker belongs to one mark only. -/
theorem eq_of_marker_eq {mark other : Bom} (hmark : mark ≠ broken) (hother : other ≠ broken)
    (h : mark.marker = other.marker) : mark = other := by
  cases mark <;> cases other <;> first | rfl | contradiction

/-- There is one longest mark. -/
theorem IsLongestMark.unique {head : List UInt8} {mark other : Bom} (h : IsLongestMark head mark)
    (h' : IsLongestMark head other) : mark = other := by
  apply eq_of_marker_eq h.ne_broken h'.ne_broken
  have hlength : mark.marker.length = other.marker.length :=
    Nat.le_antisymm (h'.longest mark h.found) (h.longest other h'.found)
  obtain ⟨rest, hrest⟩ := h.found
  obtain ⟨rest', hrest'⟩ := h'.found
  exact (List.append_inj (hrest.trans hrest'.symm) hlength).1

/-- A mark of the list is found, or none. -/
theorem classify_cases (head : List UInt8) :
    classify head = absent ∨ classify head ∈ candidates ∧ (classify head).marker <+: head := by
  unfold classify
  cases hfind : candidates.find? fun b => b.marker.isPrefixOf head with
  | none => exact .inl rfl
  | some mark =>
    have hfound := List.find?_some hfind
    exact .inr ⟨List.mem_of_find?_eq_some hfind, List.isPrefixOf_iff_prefix.1 hfound⟩

/-- A head that starts with a marker is not taken for one with a shorter mark. -/
theorem length_le_classify {head : List UInt8} (other : Bom) (h : other.marker <+: head) :
    other.marker.length ≤ (classify head).marker.length := by
  cases other with
  | absent => exact Nat.zero_le _
  | broken => exact Nat.zero_le _
  | utf16le =>
    -- The only marker with which another one starts.
    obtain ⟨rest, rfl⟩ := h
    have hmark : classify (utf16le.marker ++ rest) =
        match utf32le.marker.isPrefixOf (utf16le.marker ++ rest) with
        | true => utf32le
        | false => utf16le := by
      cases hlong : utf32le.marker.isPrefixOf (utf16le.marker ++ rest) with
      | true =>
        obtain ⟨rest', hrest'⟩ := List.isPrefixOf_iff_prefix.1 hlong
        rw [← hrest']
        rfl
      | false =>
        show (match utf32le.marker.isPrefixOf (utf16le.marker ++ rest) with
          | true => some utf32le
          | false => some utf16le).getD absent = utf16le
        rw [hlong]
        rfl
    rw [hmark]
    split <;> decide
  | _ =>
    obtain ⟨rest, rfl⟩ := h
    exact Nat.le_refl _

/-- The mark found is the longest. -/
theorem isLongestMark_classify (head : List UInt8) : IsLongestMark head (classify head) := by
  refine ⟨?_, ?_, length_le_classify⟩
  · rcases classify_cases head with habsent | ⟨hmem, -⟩
    · rw [habsent]
      decide
    · intro hbroken
      rw [hbroken] at hmem
      exact absurd hmem (by decide)
  · rcases classify_cases head with habsent | ⟨-, hfound⟩
    · rw [habsent]
      exact List.nil_prefix
    · exact hfound

/-- A mark is found exactly if it is the longest. -/
theorem classify_eq_iff {head : List UInt8} {mark : Bom} :
    classify head = mark ↔ IsLongestMark head mark := by
  constructor
  · rintro rfl
    exact isLongestMark_classify head
  · exact (isLongestMark_classify head).unique

/-! ## The whole call -/

/-- What sniffing the stream `s` does, given the reads that it makes, the bytes that these give, and
whether the last read fails and the move succeeds. -/
structure Sniffs (s : Stream) (reads : List StreamCall) (head : List UInt8) (failed moved : Bool) :
    Prop where
  /-- The reads go on until the head is full, a read gives nothing, or a read fails. -/
  headRead : HeadRead reads head failed
  /-- After the last read one move is made, and no other call at all. -/
  calls : ∃ target, (sniff s).2.calls = .seek target moved :: (reads ++ s.calls)
  /-- It is for the stream to say whether the move succeeds. -/
  move : moved = s.seeks.headD true
  /-- The data stay the same. -/
  data : (sniff s).2.data = s.data
  /-- They start with the bytes read. -/
  start : head <+: s.data
  /-- These are four at most. -/
  length : head.length ≤ 4
  /-- If a read has failed, so has the call, and the stream is at its start again or where it
  stood. -/
  readFailed : failed = true → (sniff s).1 = broken ∧
    (sniff s).2.position = if moved then 0 else head.length
  /-- If the move has failed, so has the call, and the stream stays where it stood. -/
  moveFailed : failed = false → moved = false → (sniff s).1 = broken ∧
    (sniff s).2.position = head.length
  /-- Otherwise the longest mark is found, and exactly its marker is skipped. -/
  found : failed = false → moved = true →
    (∀ mark, (sniff s).1 = mark ↔ IsLongestMark head mark) ∧
    (sniff s).2.position = (sniff s).1.length ∧
    s.data = (sniff s).1.marker ++ (sniff s).2.ahead
  /-- If also no read has given nothing before the end, the mark is that of the data. -/
  whole : failed = false → moved = true →
    (∀ size, .read size (.bytes []) ∈ reads → head = s.data) → (sniff s).1 = classify s.data

/-- A head that has been read without a failure decides the mark of the data, if reads give nothing
only at their end. -/
theorem HeadRead.classify_eq {reads : List StreamCall} {head data : List UInt8}
    (h : HeadRead reads head false) (hstart : head <+: data)
    (hend : ∀ size, .read size (.bytes []) ∈ reads → head = data) :
    classify head = classify data := by
  cases h with
  | full _ hcomplete =>
    obtain ⟨rest, rfl⟩ := hstart
    exact classify_eq_of_prefix (.inl hcomplete)
  | dry _ _ => rw [hend _ List.mem_cons_self]

/-- What sniffing does if the head cannot be read. -/
theorem Looked.sniffs_of_failed {s s' : Stream} {reads : List StreamCall} {head : List UInt8}
    (h : Looked s reads head s') (hreads : HeadRead reads head true)
    (hread : readHead s [] = (none, s')) : Sniffs s reads head true (s.seeks.headD true) := by
  have hsniff := sniff_of_readHead_none hread
  have hseek : (s'.seek 0).2.position = if s.seeks.headD true then 0 else head.length := by
    rw [← h.position, ← h.seeks]
    rfl
  refine ⟨hreads, ⟨0, ?_⟩, rfl, ?_, h.start, h.length, ?_, ?_, ?_, ?_⟩
  · rw [hsniff, ← h.calls, ← h.seeks]
    rfl
  · rw [hsniff]
    exact h.data
  · intro _
    rw [hsniff]
    exact ⟨rfl, hseek⟩
  · intro hfailed
    cases hfailed
  · intro hfailed
    cases hfailed
  · intro hfailed
    cases hfailed

/-- Sniffing fails if the move does. -/
theorem sniff_of_stuck {s s' : Stream} {head : List UInt8}
    (hread : readHead s [] = (some head, s'))
    (hstuck : (s'.seek (classify head).length).1 = false) : (sniff s).1 = broken := by
  simp only [sniff, hread]
  split
  · rename_i hseek
    rw [hseek] at hstuck
    cases hstuck
  · rfl

/-- What sniffing does if the head has been read. -/
theorem Looked.sniffs_of_read {s s' : Stream} {reads : List StreamCall} {head : List UInt8}
    (h : Looked s reads head s') (hreads : HeadRead reads head false)
    (hread : readHead s [] = (some head, s')) : Sniffs s reads head false (s.seeks.headD true) := by
  obtain ⟨hafter, hfound⟩ := sniff_of_readHead hread
  have hmoved : (s'.seek (classify head).length).1 = s.seeks.headD true := by
    rw [← h.seeks]
    rfl
  have hposition : (sniff s).2.position =
      if s.seeks.headD true then (classify head).length else head.length := by
    rw [hafter, ← h.position, ← h.seeks]
    rfl
  have hdata : (sniff s).2.data = s.data := by
    rw [hafter]
    exact h.data
  rw [hmoved] at hfound
  refine ⟨hreads, ⟨(classify head).length, ?_⟩, rfl, hdata, h.start, h.length, ?_, ?_, ?_, ?_⟩
  · rw [hafter, ← h.calls, ← h.seeks]
    rfl
  · intro hfailed
    cases hfailed
  · intro _ hstuck
    rw [hstuck] at hmoved hposition
    exact ⟨sniff_of_stuck hread hmoved, hposition⟩
  · intro _ hmoves
    have hmark := hfound hmoves
    rw [hmoves, if_pos rfl, ← hmark] at hposition
    refine ⟨?_, hposition, ?_⟩
    · intro mark
      rw [hmark]
      exact classify_eq_iff
    · have hmarker : (sniff s).1.marker <+: s.data := by
        rw [hmark]
        exact (isLongestMark_classify head).found.trans h.start
      obtain ⟨rest, hrest⟩ := hmarker
      rw [Stream.ahead, hdata, hposition, Bom.length, ← hrest, List.drop_left]
  · intro _ hmoves hend
    rw [hfound hmoves]
    exact hreads.classify_eq h.start hend

/-- Sniffing restores the stream, whatever its data and however its reads and its move turn out. -/
theorem sniff_exact {s : Stream} (h : s.position = 0) :
    ∃ reads head failed moved, Sniffs s reads head failed moved := by
  have hfresh : Looked s [] [] s := ⟨rfl, rfl, rfl, List.nil_prefix, Nat.zero_le _, h⟩
  obtain ⟨reads, head, failed, hlooked, hreads, hhead⟩ := readHead_looked hfresh .start
  have hread : readHead s [] = (_, (readHead s []).2) := Prod.ext hhead rfl
  cases failed with
  | true => exact ⟨reads, head, true, _, hlooked.sniffs_of_failed hreads hread⟩
  | false => exact ⟨reads, head, false, _, hlooked.sniffs_of_read hreads hread⟩

/-- A stream with a short mark that reads on like a longer one, in bits and with an interruption. -/
def hesitantStream : Stream :=
  ⟨[0xFF, 0xFE, 0x00, 0x61, 0x00], 0, [.upTo 3, .interrupted, .upTo 1], none, [], []⟩

/-- Two bytes too many are read there, and both are given back. -/
theorem sniff_exact_hesitantStream :
    (sniff hesitantStream).1 = utf16le ∧ (sniff hesitantStream).2.ahead = [0x00, 0x61, 0x00] ∧
      ∃ reads head failed moved, Sniffs hesitantStream reads head failed moved :=
  ⟨by decide +kernel, by decide +kernel, sniff_exact rfl⟩

end Listfile.Bom
