import Listfile.Bom.Sniff
import Listfile.Proofs.Stream

/-!
# The byte-order mark of an honest stream

The first bytes of a stream are read in as many reads as it takes, and a mark is looked for in them.
On an honest stream the mark found is that of the whole data, whatever the sizes of the reads and the
interruptions between them, and the stream is left at the byte after the mark (`sniff_of_honest`).

Two facts carry this: reading stops with `headLength` bytes or with all bytes (`readHead_of_honest`),
and no mark is longer than that (`classify_eq_of_prefix`).
-/

namespace Listfile.Bom

/-! ## Reading the head -/

/-- Reading the head is a run. -/
theorem readHead_run (s : Stream) (head : List UInt8) : s.Run (readHead s head).2 := by
  fun_induction readHead s head with
  | case1 s head hroom s' hread =>
    have hrun := s.read_run (Nat.sub_pos_of_lt hroom)
    rwa [hread] at hrun
  | case2 s head hroom b more s' hread _ ih =>
    have hrun := s.read_run (Nat.sub_pos_of_lt hroom)
    rw [hread] at hrun
    exact hrun.trans ih
  | case3 s head hroom s' hread _ ih =>
    have hrun := s.read_run (Nat.sub_pos_of_lt hroom)
    rw [hread] at hrun
    exact hrun.trans ih
  | case4 s head hroom cause s' hread =>
    have hrun := s.read_run (Nat.sub_pos_of_lt hroom)
    rwa [hread] at hrun
  | case5 s head hroom => exact .stay s

/-- On an honest stream, the head is read up to its full length or to the end of the data. -/
theorem readHead_of_honest {s : Stream} {head : List UInt8} (hstep : s.InStep)
    (h : Honest s.data (readHead s head).2.calls) :
    ∃ more, (readHead s head).1 = some (head ++ more) ∧
      s.ahead = more ++ (readHead s head).2.ahead ∧
      (headLength ≤ (head ++ more).length ∨ (readHead s head).2.ahead = []) := by
  fun_induction readHead s head with
  | case1 s head hroom s' hread =>
    have hahead := Stream.ahead_eq_of_read hread
    refine ⟨[], by rw [List.append_nil], hahead, .inr ?_⟩
    rcases Stream.read_of_honest hread hstep h with hinterrupted | ⟨bytes, hbytes, hend⟩
    · cases hinterrupted
    · cases hbytes
      rw [hend rfl] at hahead
      exact hahead.symm
  | case2 s head hroom b more s' hread _ ih =>
    have hrun := s.read_run (Nat.sub_pos_of_lt hroom)
    rw [hread] at hrun
    rw [← hrun.data] at h
    obtain ⟨later, hhead, hahead, hend⟩ := ih (hrun.inStep hstep) h
    rw [List.append_assoc] at hhead hend
    refine ⟨b :: more ++ later, hhead, ?_, hend⟩
    rw [Stream.ahead_eq_of_read hread, hahead, List.append_assoc]
  | case3 s head hroom s' hread _ ih =>
    have hrun := s.read_run (Nat.sub_pos_of_lt hroom)
    rw [hread] at hrun
    rw [← hrun.data] at h
    obtain ⟨later, hhead, hahead, hend⟩ := ih (hrun.inStep hstep) h
    refine ⟨later, hhead, ?_, hend⟩
    rw [← Stream.ahead_eq_of_read_ne hread (by simp), hahead]
  | case4 s head hroom cause s' hread =>
    rcases Stream.read_of_honest hread hstep h with hinterrupted | ⟨bytes, hbytes, -⟩
    · cases hinterrupted
    · cases hbytes
  | case5 s head hroom =>
    refine ⟨[], by rw [List.append_nil], rfl, .inl ?_⟩
    rw [List.append_nil]
    omega

/-! ## Finding the mark -/

/-- No mark is longer than the head. -/
theorem length_marker_le (b : Bom) : b.marker.length ≤ headLength := by
  cases b <;> decide

/-- The first bytes decide the mark, if they are as many as the head has or all there are. -/
theorem classify_eq_of_prefix {head rest : List UInt8}
    (h : headLength ≤ head.length ∨ rest = []) : classify head = classify (head ++ rest) := by
  have hsame : ∀ b : Bom, b.marker.isPrefixOf head = b.marker.isPrefixOf (head ++ rest) := by
    intro b
    rcases h with hlength | rfl
    · rw [Bool.eq_iff_iff, List.isPrefixOf_iff_prefix, List.isPrefixOf_iff_prefix]
      constructor
      · intro hprefix
        exact hprefix.trans (List.prefix_append _ _)
      · intro hprefix
        exact List.prefix_of_prefix_length_le hprefix (List.prefix_append _ _)
          (Nat.le_trans b.length_marker_le hlength)
    · rw [List.append_nil]
  simp only [classify, hsame]

/-- What sniffing does, given what has been read. -/
theorem sniff_of_readHead {s s' : Stream} {head : List UInt8}
    (hread : readHead s [] = (some head, s')) :
    (sniff s).2 = (s'.seek (classify head).length).2 ∧
      ((s'.seek (classify head).length).1 = true → (sniff s).1 = classify head) := by
  simp only [sniff, hread]
  split
  · rename_i hseek
    rw [hseek]
    exact ⟨rfl, fun _ => rfl⟩
  · rename_i hseek
    rw [hseek]
    refine ⟨rfl, ?_⟩
    intro hmoved
    cases hmoved

/-- What sniffing does if the head cannot be read. -/
theorem sniff_of_readHead_none {s s' : Stream} (hread : readHead s [] = (none, s')) :
    sniff s = (broken, (s'.seek 0).2) := by
  simp only [sniff, hread]

/-- Sniffing reads the head and then moves. -/
theorem sniff_run (s : Stream) :
    s.Run (readHead s []).2 ∧ (readHead s []).2.Run (sniff s).2 := by
  refine ⟨readHead_run s [], ?_⟩
  cases hread : readHead s [] with
  | mk head s' =>
    cases head with
    | none =>
      rw [sniff_of_readHead_none hread]
      exact s'.seek_run 0
    | some head =>
      rw [(sniff_of_readHead hread).1]
      exact s'.seek_run _

/-- Sniffing an honest stream from its start finds the mark of its data and moves past it. -/
theorem sniff_of_honest {s : Stream} (hstart : s.position = 0) (hstep : s.InStep)
    (h : Honest s.data (sniff s).2.calls) :
    (sniff s).1 = classify s.data ∧
      (sniff s).2.ahead = s.data.drop (classify s.data).length := by
  obtain ⟨hhead, hmove⟩ := sniff_run s
  have hdata : (sniff s).2.data = s.data := (hhead.trans hmove).data
  have hhonest : Honest s.data (readHead s []).2.calls := by
    rw [← hhead.data]
    rw [← hdata] at h
    exact hmove.honest_before h
  obtain ⟨head, hsome, hahead, hend⟩ := readHead_of_honest hstep hhonest
  rw [List.nil_append] at hsome hend
  -- The head and what lies ahead of it are the data.
  have hall : s.data = head ++ (readHead s []).2.ahead := by
    rw [← hahead, Stream.ahead, hstart, List.drop_zero]
  have hmark : classify head = classify s.data := by
    rw [hall]
    exact classify_eq_of_prefix hend
  have hread : readHead s [] = (some head, (readHead s []).2) := Prod.ext hsome rfl
  obtain ⟨hafter, hfound⟩ := sniff_of_readHead hread
  rw [hmark] at hafter hfound
  rw [hafter, ← hhead.data] at h
  obtain ⟨hmoved, hposition⟩ := Stream.seek_of_honest h
  rw [hhead.data] at hmoved hposition
  refine ⟨hfound hmoved, ?_⟩
  rw [hafter, hposition]

end Listfile.Bom
