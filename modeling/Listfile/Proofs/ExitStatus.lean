import Listfile.Command
import Listfile.Folder
import Listfile.Proofs.Tokens

/-!
# The exit status of the lex command

The lex command should succeed if and only if it has read the whole file and found no fault in it. It
reads a file in two ways. With the memory option it reads all bytes before it scans them, and a read
that fails is the end of the command. Without that option it scans the file as a stream, and a read
that fails is taken for the end of the file.

`lexFile_tells` says of both ways, for all files and options, when the status is zero: if the file is
read as a whole and has no fault (`Lexed`), and in one more case, which only the second way knows.
There a call on the opened file has gone wrong, and what has been read nevertheless shows no fault
(`Unnoticed`). A directory is such a file, as it can be opened but not read (`status_of_directory`).

Of files it is asked that they have just been opened, and that their reads give bytes as long as there
are any (`Stream.JustOpened`). Whatever is opened in a folder is of this sort (`Folder.justOpened`).
-/

namespace Listfile

/-! ## Files -/

namespace Stream

/-- Each read that succeeds can give bytes, so one that gives none is at the end. -/
def Gives (s : Stream) : Prop :=
  ∀ n, .upTo n ∈ s.reads → 0 < n

/-- A read leaves it so. -/
theorem Gives.of_read {s s' : Stream} {size : Nat} {answer : ReadAnswer} (hgives : s.Gives)
    (h : s.read size = (answer, s')) : s'.Gives := by
  obtain ⟨-, rfl⟩ := Prod.mk.inj h
  exact fun n hmem => hgives n (List.mem_of_mem_tail hmem)

/-- A read that gives nothing, though it asks for as many bytes as there are, is at the end. -/
theorem Gives.ahead_eq_nil {s s' : Stream} (hgives : s.Gives)
    (h : s.read s.data.length = (.bytes [], s')) : s.ahead = [] := by
  obtain ⟨hanswer, -⟩ := Prod.mk.inj h
  have hahead : s.data.length = 0 → s.ahead = [] := by
    intro hlength
    rw [ahead, List.length_eq_zero_iff.1 hlength, List.drop_nil]
  unfold answer nextOutcome at hanswer
  cases hscript : s.reads with
  | nil =>
    cases hfailure : s.failure with
    | none =>
      simp only [hscript, hfailure, Nat.min_self, ReadAnswer.bytes.injEq,
        List.take_eq_nil_iff] at hanswer
      exact hanswer.elim hahead id
    | some cause => simp only [hscript, hfailure, reduceCtorEq] at hanswer
  | cons outcome later =>
    cases outcome with
    | upTo n =>
      have hpos : 0 < n := by
        apply hgives
        rw [hscript]
        exact List.mem_cons_self
      simp only [hscript, ReadAnswer.bytes.injEq, List.take_eq_nil_iff] at hanswer
      rcases hanswer with hzero | hnil
      · exact hahead (by omega)
      · exact hnil
    | interrupted => simp only [hscript, reduceCtorEq] at hanswer
    | failed cause => simp only [hscript, reduceCtorEq] at hanswer

/-- If all bytes are read without an error, they are all the bytes ahead. -/
theorem Gives.eq_ahead_of_readAll {s : Stream} {bytes : List UInt8} (hgives : s.Gives)
    (h : s.readAll = .ok bytes) : bytes = s.ahead := by
  fun_induction readAll s generalizing bytes with
  | case1 s s' hread =>
    cases h
    exact (hgives.ahead_eq_nil hread).symm
  | case2 s b more s' hread _ _ ih =>
    cases hrest : s'.readAll with
    | error cause =>
      rw [hrest] at h
      cases h
    | ok rest =>
      rw [hrest] at h
      cases h
      rw [ahead_eq_of_read hread, ← ih (hgives.of_read hread) hrest]
  | case3 s s' hread _ _ ih =>
    rw [ih (hgives.of_read hread) h]
    exact ahead_eq_of_read_ne hread (by simp)
  | case4 s cause s' hread => cases h

/-- A file that has just been opened. -/
structure JustOpened (s : Stream) : Prop where
  /-- The first byte is the next one. -/
  position : s.position = 0
  /-- No call has been made. -/
  calls : s.calls = []
  /-- Reads give bytes as long as there are any. -/
  gives : s.Gives

/-- If a file that has just been opened is read without an error, it is read as a whole. -/
theorem JustOpened.eq_data_of_readAll {s : Stream} {bytes : List UInt8} (hopened : s.JustOpened)
    (h : s.readAll = .ok bytes) : bytes = s.data := by
  rw [hopened.gives.eq_ahead_of_readAll h, ahead, hopened.position, List.drop_zero]

/-- A stream of bytes at its start is such a file. -/
theorem justOpened_ofBytes (data : List UInt8) : (ofBytes data).JustOpened :=
  ⟨rfl, rfl, fun _ hmem => absurd hmem List.not_mem_nil⟩

/-- So is a stream that cannot be read. -/
theorem justOpened_unreadable (cause : FileError) : (unreadable cause).JustOpened :=
  ⟨rfl, rfl, fun _ hmem => absurd hmem List.not_mem_nil⟩

end Stream

/-- Whatever a folder opens has just been opened. -/
theorem Folder.justOpened {f : Folder} {path : String} {s : Stream}
    (h : f.toFileSystem path = .ok s) : s.JustOpened := by
  simp only [toFileSystem, bind_eq_ok] at h
  obtain ⟨place, -, h⟩ := h
  cases place with
  | file bytes =>
    cases h
    exact Stream.justOpened_ofBytes bytes
  | directory location =>
    cases h
    exact Stream.justOpened_unreadable .isADirectory

namespace Command

/-! ## Reading a file -/

/-- No token is a fault. -/
def FaultFree (tokens : List Token) : Prop :=
  ∀ t ∈ tokens, t.kind.isFault = false

/-- The whole file is read without an error: at once, or while a lexer that is bound to it sniffs its
mark and reads on to its end. -/
def ReadsWhole (options : Options) (s : Stream) : Prop :=
  if options.memory then s.readAll = .ok s.data
  else (Lexer.ofSettings options.settings).ReadsHonestly s

/-- The tokens of a file with the given bytes. Only a stream has a mark and line ends to be
normalised. -/
def contentTokens (options : Options) (data : List UInt8) : List Token :=
  tokensOf options.settings.emitSpace Context.start <| segments <|
    if options.memory then data else normalize (data.drop (Bom.classify data).length)

/-- The tokens that a lexer without the memory option finds, whatever goes wrong with the stream. -/
def streamTokens (options : Options) (s : Stream) : List Token :=
  ((Lexer.ofSettings options.settings).openStream s).2.drain.1

/-- A stream without data has no tokens, whatever its calls come to. -/
theorem streamTokens_of_data_nil (options : Options) {s : Stream} (h : s.data = []) :
    streamTokens options s = [] := by
  obtain ⟨hhead, hmove⟩ := Bom.sniff_run s
  have hdata : (Bom.sniff s).2.data = [] := (hhead.trans hmove).data.trans h
  have hdelivers : Source.Delivers
      (Feed.stream (Normalized.ofStream (Bom.sniff s).2 options.settings.windowSize)) [] := by
    refine ⟨fun f bytes => f.remaining = 0 ∧ bytes = [], ⟨fun _ => trivial, ?_⟩, ?_, rfl⟩
    · rintro f bytes room ⟨hnone, rfl⟩ - -
      refine .inl ⟨?_, rfl⟩
      apply Classical.byContradiction
      intro hne
      have hlt : (f.fill room).2.remaining < f.remaining := f.remaining_fill_lt room hne
      omega
    · show ((Bom.sniff s).2.data.drop (Bom.sniff s).2.position).length + 0 = 0
      rw [hdata, List.drop_nil]
      rfl
  rw [streamTokens, Lexer.drain_openStream_tokens]
  apply (hdelivers.holds options.settings Draft.empty).tokens_eq.trans
  rw [segments]
  rfl

/-- The file has been read as a whole, and no token of it is a fault. -/
def Lexed (options : Options) (s : Stream) : Prop :=
  ReadsWhole options s ∧ FaultFree (contentTokens options s.data)

/-- Something has gone wrong with an opened file that is read as a stream, and no token shows it. -/
def Unnoticed (options : Options) (s : Stream) : Prop :=
  options.memory = false ∧ ¬ ReadsWhole options s ∧ FaultFree (streamTokens options s)

/-! ## The status -/

/-- The status is zero if `P` holds, and otherwise one. -/
def Outcome.Tells (o : Outcome) (P : Prop) : Prop :=
  (o.status = 0 ∧ P) ∨ (o.status = 1 ∧ ¬ P)

/-- The status tells the same of what is equivalent. -/
theorem Outcome.Tells.of_iff {o : Outcome} {P Q : Prop} (h : o.Tells P) (hiff : P ↔ Q) :
    o.Tells Q := by
  rcases h with ⟨hzero, hP⟩ | ⟨hone, hP⟩
  · exact .inl ⟨hzero, hiff.1 hP⟩
  · exact .inr ⟨hone, fun hQ => hP (hiff.2 hQ)⟩

theorem Outcome.Tells.eq_zero {o : Outcome} {P : Prop} (h : o.Tells P) (hP : P) : o.status = 0 := by
  rcases h with ⟨hzero, -⟩ | ⟨-, hnot⟩
  · exact hzero
  · exact absurd hP hnot

theorem Outcome.Tells.eq_one {o : Outcome} {P : Prop} (h : o.Tells P) (hP : ¬ P) : o.status = 1 := by
  rcases h with ⟨-, hyes⟩ | ⟨hone, -⟩
  · exact absurd hyes hP
  · exact hone

/-- A report tells whether its tokens are free of faults. -/
theorem report_tells (heading : List String) (path : String) (tokens : List Token) :
    (report heading path tokens).Tells (FaultFree tokens) := by
  have hfilter : tokens.filter (·.kind.isFault) = [] ↔ FaultFree tokens := by
    rw [List.filter_eq_nil_iff]
    simp only [FaultFree, Bool.not_eq_true]
  unfold report
  by_cases hfree : FaultFree tokens
  · left
    rw [hfilter.2 hfree]
    exact ⟨rfl, hfree⟩
  · right
    refine ⟨?_, hfree⟩
    show (if (tokens.filter (·.kind.isFault)).isEmpty then 0 else 1) = 1
    rw [if_neg]
    rw [List.isEmpty_iff, hfilter]
    exact hfree

/-- A file that cannot be opened gives the status one. -/
theorem status_of_error {files : FileSystem} {path : String} {cause : FileError}
    (options : Options) (h : files path = .error cause) :
    (lexFile files path options).status = 1 := by
  unfold lexFile Lexer.openPath
  rw [h]
  split <;> rfl

/-- With the memory option, the status of a file that can be opened tells whether it is lexed. -/
theorem lexFile_tells_of_memory {files : FileSystem} {path : String} {options : Options}
    {s : Stream} (hmemory : options.memory = true) (hfile : files path = .ok s)
    (hopened : s.JustOpened) : (lexFile files path options).Tells (Lexed options s) := by
  have hread : (files path >>= Stream.readAll) = s.readAll := by
    rw [hfile]
    rfl
  unfold Lexed ReadsWhole lexFile
  rw [if_pos hmemory, if_pos hmemory, hread]
  cases hall : s.readAll with
  | ok bytes =>
    obtain rfl := hopened.eq_data_of_readAll hall
    have htokens : ((Lexer.ofSettings options.settings).openMemory s.data).drain.1 =
        contentTokens options s.data := by
      rw [Lexer.drain_openMemory_eq, contentTokens, if_pos hmemory]
      rfl
    simp only [htokens, true_and]
    exact report_tells [] path (contentTokens options s.data)
  | error cause =>
    refine .inr ⟨rfl, ?_⟩
    rintro ⟨hok, -⟩
    cases hok

/-- Without it, the status tells whether the file is lexed or something has gone unnoticed. -/
theorem lexFile_tells_of_stream {files : FileSystem} {path : String} {options : Options}
    {s : Stream} (hmemory : options.memory = false) (hfile : files path = .ok s)
    (hopened : s.JustOpened) :
    (lexFile files path options).Tells (Lexed options s ∨ Unnoticed options s) := by
  have htells : (lexFile files path options).Tells (FaultFree (streamTokens options s)) := by
    unfold lexFile Lexer.openPath
    rw [hmemory, hfile]
    exact report_tells _ path (streamTokens options s)
  apply htells.of_iff
  by_cases hwhole : ReadsWhole options s
  · -- Then the tokens that are found are those of the file.
    have htokens : streamTokens options s = contentTokens options s.data := by
      have hhonest := hwhole
      have hstep : s.InStep := by
        rw [Stream.InStep, hopened.position, hopened.calls]
        rfl
      rw [ReadsWhole, hmemory] at hhonest
      rw [streamTokens, contentTokens, hmemory]
      exact Lexer.drain_openStream_eq hopened.position hstep hhonest
    rw [htokens]
    refine ⟨fun hfree => .inl ⟨hwhole, hfree⟩, ?_⟩
    rintro (⟨-, hfree⟩ | ⟨-, hbroken, -⟩)
    · exact hfree
    · exact absurd hwhole hbroken
  · refine ⟨fun hfree => .inr ⟨hmemory, hwhole, hfree⟩, ?_⟩
    rintro (⟨hread, -⟩ | ⟨-, -, hfree⟩)
    · exact absurd hread hwhole
    · exact hfree

/-- The status is zero if the file is read as a whole and has no fault, and in one more case only:
something has gone unnoticed. Otherwise it is one. -/
theorem lexFile_tells (files : FileSystem) (path : String) (options : Options)
    (hopened : ∀ s, files path = .ok s → s.JustOpened) :
    (lexFile files path options).Tells
      (∃ s, files path = .ok s ∧ (Lexed options s ∨ Unnoticed options s)) := by
  cases hfile : files path with
  | error cause =>
    refine .inr ⟨status_of_error options hfile, ?_⟩
    rintro ⟨s, hs, -⟩
    cases hs
  | ok s =>
    have htells : (lexFile files path options).Tells (Lexed options s ∨ Unnoticed options s) := by
      cases hmemory : options.memory with
      | true =>
        apply (lexFile_tells_of_memory hmemory hfile (hopened s hfile)).of_iff
        refine ⟨.inl, ?_⟩
        rintro (hlexed | ⟨hstream, -⟩)
        · exact hlexed
        · rw [hmemory] at hstream
          exact absurd hstream.symm Bool.false_ne_true
      | false => exact lexFile_tells_of_stream hmemory hfile (hopened s hfile)
    apply htells.of_iff
    refine ⟨fun hwhy => ⟨s, rfl, hwhy⟩, ?_⟩
    rintro ⟨s', hs, hwhy⟩
    cases hs
    exact hwhy

/-- A file that holds a letter is read as a stream, and the status is zero. -/
theorem lexFile_tells_of_letter :
    (lexFile (fun _ => .ok (Stream.ofBytes [0x61])) "a" default).status = 0 := by
  have htells := lexFile_tells (fun _ => .ok (Stream.ofBytes [0x61])) "a" default fun s hs =>
    Except.ok.inj hs ▸ Stream.justOpened_ofBytes [0x61]
  have hobliging : (Stream.ofBytes [0x61]).Obliging := by
    refine ⟨?_, rfl, ?_⟩ <;> simp [Stream.ofBytes]
  have htokens : contentTokens default (Stream.ofBytes [0x61]).data =
      [⟨.identifier, [0x61], Position.start⟩] := by decide +kernel
  have hlexed : Lexed default (Stream.ofBytes [0x61]) := by
    refine ⟨Lexer.readsHonestly_of_obliging _ hobliging rfl rfl, ?_⟩
    rw [htokens]
    intro t ht
    rw [List.mem_singleton.1 ht]
    rfl
  exact htells.eq_zero ⟨_, rfl, .inl hlexed⟩

/-! ## Files that cannot be read -/

/-- If a stream cannot be read, the first read fails while the mark is sniffed, and no token is
found. -/
theorem unnoticed_unreadable (cause : FileError) {options : Options}
    (hmemory : options.memory = false) : Unnoticed options (Stream.unreadable cause) := by
  refine ⟨hmemory, ?_, ?_⟩
  · intro hhonest
    rw [ReadsWhole, hmemory] at hhonest
    have hread : Bom.readHead (Stream.unreadable cause) [] =
        (none, ((Stream.unreadable cause).read Bom.headLength).2) := by
      rw [Bom.readHead]
      rfl
    have hsniff := Lexer.ReadsHonestly.sniff hhonest
    rw [Bom.sniff_of_readHead_none hread] at hsniff
    exact hsniff.2
  · rw [streamTokens_of_data_nil options rfl]
    exact fun t ht => absurd ht List.not_mem_nil

/-- With the memory option a failed first read shows in the status, and without it it does not. -/
theorem status_of_unreadable {files : FileSystem} {path : String} {cause : FileError}
    (hfile : files path = .ok (Stream.unreadable cause)) (settings : Settings) :
    (lexFile files path ⟨settings, true⟩).status = 1 ∧
      (lexFile files path ⟨settings, false⟩).status = 0 := by
  have hopened := Stream.justOpened_unreadable cause
  have hread : (Stream.unreadable cause).readAll = .error cause := by
    rw [Stream.readAll]
    rfl
  have hmemory : ¬ Lexed ⟨settings, true⟩ (Stream.unreadable cause) := by
    rintro ⟨hwhole, -⟩
    have hok : (Stream.unreadable cause).readAll = .ok [] := hwhole
    rw [hread] at hok
    cases hok
  have hstream : Unnoticed ⟨settings, false⟩ (Stream.unreadable cause) :=
    unnoticed_unreadable cause rfl
  constructor
  · have htells : (lexFile files path ⟨settings, true⟩).Tells (Lexed ⟨settings, true⟩ _) :=
      lexFile_tells_of_memory rfl hfile hopened
    exact htells.eq_one hmemory
  · have htells : (lexFile files path ⟨settings, false⟩).Tells
        (Lexed ⟨settings, false⟩ _ ∨ Unnoticed ⟨settings, false⟩ _) :=
      lexFile_tells_of_stream rfl hfile hopened
    exact htells.eq_zero (.inr hstream)

/-- A path that leads to a directory is such a file. -/
theorem status_of_directory {f : Folder} {path : String} {location : Location}
    (h : f.find path = .ok (.directory location)) (settings : Settings) :
    (lexFile f.toFileSystem path ⟨settings, true⟩).status = 1 ∧
      (lexFile f.toFileSystem path ⟨settings, false⟩).status = 0 := by
  apply status_of_unreadable
  unfold Folder.toFileSystem
  rw [h]
  rfl

/-- A directory is not read, and yet the status is zero. -/
theorem lexFile_directory_unnoticed :
    ¬ Lexed ⟨Settings.default, false⟩ (Stream.unreadable .isADirectory) ∧
      (lexFile (fun _ => .ok (Stream.unreadable .isADirectory)) "d"
        ⟨Settings.default, false⟩).status = 0 := by
  have hunnoticed : Unnoticed ⟨Settings.default, false⟩ (Stream.unreadable .isADirectory) :=
    unnoticed_unreadable .isADirectory rfl
  refine ⟨fun hlexed => hunnoticed.2.1 hlexed.1, ?_⟩
  exact (status_of_unreadable rfl Settings.default).2

end Command

end Listfile
