import Listfile.Lexer
import Listfile.Proofs.Bom
import Listfile.Proofs.Normalized

/-!
# Streams are read like memory

A lexer that is bound to a stream sniffs the byte-order mark, moves back behind it, and then reads the
stream through a buffer, a filter for line ends and the window of a scanner. Each of these cuts the
bytes in its own places. None of the cuts shows: if the stream is honest to the end, the lexer gives
the tokens and positions that it gives for the normalised rest of the data in memory
(`openStream_eq_openMemory`).

* `Lexer.observations` is what can be seen of a lexer: the answers to its calls, and the position
  after each. It depends on the readings of the scanner alone (`observations_eq`).
* `Lexer.ReadsHonestly` says that all calls made on the stream, up to the end of the input, were
  honest. `readsHonestly_of_obliging` gives streams of which this is known beforehand.
-/

namespace Listfile

/-! ## Feeds -/

namespace Feed

/-- The calls made on the stream, if the feed has one. -/
def calls : Feed → List StreamCall
  | memory _ => []
  | stream n => n.input.stream.calls

/-- Nothing has gone wrong with the stream, if the feed has one. -/
def Sound : Feed → Prop
  | memory _ => True
  | stream n => n.Sound

/-- Bytes in memory deliver themselves. -/
theorem memory_delivers (m : Memory) : Source.Delivers (memory m) m.rest := by
  refine ⟨fun f bytes => ∃ m, f = memory m ∧ bytes = m.rest, ⟨fun _ => trivial, ?_⟩, m, rfl, rfl⟩
  rintro f bytes room ⟨m, rfl, hbytes⟩ hroom -
  rcases Memory.accounts.fill hbytes hroom trivial with hnil | ⟨rest, hne, hsplit, hrest⟩
  · exact .inl hnil
  · exact .inr ⟨rest, hne, hsplit, _, rfl, hrest⟩

/-- As long as it is sound, a stream accounts for what is pending. -/
theorem stream_accounts : Source.Accounts Sound fun f bytes =>
    ∃ n, f = stream n ∧ n.Open ∧ bytes = n.pending := by
  constructor
  · intro f room h
    cases f with
    | memory m => trivial
    | stream n => exact Normalized.accounts.before h
  · rintro f bytes room ⟨n, rfl, hopen⟩ hroom hsound
    rcases Normalized.accounts.fill hopen hroom hsound with hnil | ⟨rest, hne, hbytes, hrest⟩
    · exact .inl hnil
    · exact .inr ⟨rest, hne, hbytes, _, rfl, hrest⟩

end Feed

/-- A move makes calls on the stream of its feed, and leaves it a stream. -/
theorem Window.Move.run_stream {w w' : Window Feed} {bytes : List UInt8} {n : Normalized}
    (move : Move w bytes w') (h : w.source = .stream n) :
    ∃ n', w'.source = .stream n' ∧ n.input.Run n'.input := by
  cases move with
  | refill hopen _ =>
    obtain ⟨room, answer, -, hanswer, hrefill⟩ := refill_of_open hopen
    refine ⟨(n.fill room).2, ?_, n.fill_run room⟩
    rw [hrefill, hanswer, h]
    rfl
  | take _ => exact ⟨n, h, .refl _⟩

/-- A path makes calls on the stream of its feed, and leaves it a stream. -/
theorem Window.Path.run_stream {w w' : Window Feed} {bytes : List UInt8} {n : Normalized}
    (path : Path w bytes w') (h : w.source = .stream n) :
    ∃ n', w'.source = .stream n' ∧ n.input.Run n'.input := by
  induction path generalizing n with
  | stay w => exact ⟨n, h, .refl _⟩
  | step move _ ih =>
    obtain ⟨n₁, hsource, hrun⟩ := move.run_stream h
    obtain ⟨n', hsource', hrun'⟩ := ih hsource
    exact ⟨n', hsource', hrun.trans hrun'⟩

/-! ## Sessions -/

namespace Session

/-- The call that finds the end of the input finishes the session. -/
theorem next_of_nothing {s : Session} (h : s.finished = false)
    (hkind : (s.scanner.next s.draft).2.kind = .nothing) :
    s.next = (none, { s with
      scanner := (s.scanner.next s.draft).1
      draft := (s.scanner.next s.draft).2
      finished := true }) := by
  simp only [next, h, Bool.false_eq_true, if_false, hkind, if_true]

/-- Any other call gives the token that the scanner has read. -/
theorem next_of_ne_nothing {s : Session} (h : s.finished = false)
    (hkind : (s.scanner.next s.draft).2.kind ≠ .nothing) :
    s.next = (some (s.scanner.next s.draft).2.token, { s with
      scanner := (s.scanner.next s.draft).1
      draft := (s.scanner.next s.draft).2 }) := by
  simp only [next, h, Bool.false_eq_true, if_false, if_neg hkind]

/-- Draining a session takes its scanner to the end of the input. -/
theorem drain_atEnd {s : Session} (h : s.finished = false) :
    ∃ n, s.drain.2.scanner = (Scanner.after n s.scanner s.draft).1 ∧
      s.drain.2.scanner.window.AtEnd := by
  fun_induction drain s with
  | case1 s s' hnext =>
    by_cases hkind : (s.scanner.next s.draft).2.kind = .nothing
    · rw [next_of_nothing h hkind] at hnext
      cases hnext
      exact ⟨1, rfl, (Scanner.next_scans s.scanner s.draft).atEnd hkind⟩
    · rw [next_of_ne_nothing h hkind] at hnext
      cases hnext
  | case2 s t s' hnext _ more ih =>
    by_cases hkind : (s.scanner.next s.draft).2.kind = .nothing
    · rw [next_of_nothing h hkind] at hnext
      cases hnext
    · rw [next_of_ne_nothing h hkind] at hnext
      cases hnext
      obtain ⟨n, hscanner, hend⟩ := ih h
      exact ⟨n + 1, hscanner, hend⟩

end Session

/-! ## What can be seen of a lexer -/

/-- What is seen of readings: each token with its position, and from the first end of the input on
nothing but its position. -/
def observationsOf : List Scanner.Reading → List (Option Token × Position)
  | [] => []
  | r :: later =>
    if r.token.kind = .nothing then
      (none, r.token.position) :: later.map fun _ => (none, r.token.position)
    else (some r.token, r.token.position) :: observationsOf later

namespace Lexer

/-- The answers to `n` requests for a token, each with the position after it. -/
def observations : Nat → Lexer → List (Option Token × Position)
  | 0, _ => []
  | n + 1, l => (l.next.1, l.next.2.position) :: observations n l.next.2

/-- Once a session has finished, its lexer gives nothing more and stays where it is. -/
theorem observations_of_finished {settings : Settings} {s : Session} (h : s.finished = true)
    (n : Nat) :
    observations n ⟨settings, some s⟩ = List.replicate n (none, s.draft.position) := by
  have hnext : (⟨settings, some s⟩ : Lexer).next = (none, ⟨settings, some s⟩) := by
    simp only [next, Session.next, h, if_true]
  induction n with
  | zero => rfl
  | succ n ih =>
    rw [observations, hnext, List.replicate_succ, ih]
    rfl

/-- What is seen of a lexer are the readings of its scanner. -/
theorem observations_eq {settings : Settings} {s : Session} (h : s.finished = false) (n : Nat) :
    observations n ⟨settings, some s⟩ =
      observationsOf (Scanner.readingsN n s.scanner s.draft).1 := by
  induction n generalizing s with
  | zero => rfl
  | succ n ih =>
    rw [observations, Scanner.readingsN, observationsOf]
    by_cases hkind : (s.scanner.next s.draft).2.kind = .nothing
    · have hnothing : (Scanner.reading (s.scanner.next s.draft).1
          (s.scanner.next s.draft).2).token.kind = .nothing := hkind
      simp only [next, Session.next_of_nothing h hkind]
      rw [if_pos hnothing, observations_of_finished rfl, List.map_const', Scanner.length_readingsN]
      rfl
    · have hother : (Scanner.reading (s.scanner.next s.draft).1
          (s.scanner.next s.draft).2).token.kind ≠ .nothing := hkind
      simp only [next, Session.next_of_ne_nothing h hkind]
      rw [if_neg hother]
      exact congrArg (List.cons _) (ih h)

/-! ## Reading to the end -/

/-- The calls made on the stream that is bound. -/
def calls (l : Lexer) : List StreamCall :=
  match l.session with
  | some s => s.scanner.window.source.calls
  | none => []

/-- The stream answers honestly while the lexer, bound to it, sniffs its mark and reads it to the
end. After that no call is made. -/
def ReadsHonestly (l : Lexer) (s : Stream) : Prop :=
  Honest s.data (l.openStream s).2.drain.2.calls

/-- The scanner of a lexer that has just been bound to a stream. -/
def streamScanner (settings : Settings) (s : Stream) : Scanner Feed :=
  Scanner.ofSource settings
    (.stream (Normalized.ofStream (Bom.sniff s).2 settings.windowSize))

/-- Binding a lexer to a stream starts a session with this scanner. -/
theorem openStream_eq (l : Lexer) (s : Stream) :
    l.openStream s = ((Bom.sniff s).1, ⟨l.settings,
      some ⟨streamScanner l.settings s, Draft.empty, some (Bom.sniff s).1, false⟩⟩) :=
  rfl

/-- Draining a lexer that is bound to a stream makes calls on the stream that sniffing has left, until
the scanner comes to its end. -/
theorem drain_openStream (l : Lexer) (s : Stream) :
    ∃ n m, (Scanner.after m (streamScanner l.settings s) Draft.empty).1.window.AtEnd ∧
      (Scanner.after m (streamScanner l.settings s) Draft.empty).1.window.source = .stream n ∧
      (l.openStream s).2.drain.2.calls = n.input.stream.calls ∧
      0 < n.input.capacity ∧ (Bom.sniff s).2.Run n.input.stream := by
  obtain ⟨m, hscanner, hend⟩ := Session.drain_atEnd
    (s := ⟨streamScanner l.settings s, Draft.empty, some (Bom.sniff s).1, false⟩) rfl
  obtain ⟨bytes, hpath⟩ := Scanner.after_path m (streamScanner l.settings s) Draft.empty
  obtain ⟨n, hsource, hrun⟩ := hpath.run_stream rfl
  have hpos : 0 < l.settings.windowSize :=
    Nat.lt_of_lt_of_le (by decide) l.settings.leastChunkSize_le_windowSize
  rw [hscanner] at hend
  refine ⟨n, m, hend, hsource, ?_, ?_, hrun.stream hpos⟩
  · rw [openStream_eq]
    simp only [calls, drain, hscanner, hsource, Feed.calls]
  · rw [hrun.capacity]
    exact hpos

/-- Streams with good outcomes only are read honestly. -/
theorem readsHonestly_of_obliging (l : Lexer) {s : Stream} (h : s.Obliging) (hstart : s.position = 0)
    (hcalls : s.calls = []) : l.ReadsHonestly s := by
  obtain ⟨n, m, -, -, hfinal, -, hrun⟩ := l.drain_openStream s
  obtain ⟨hhead, hmove⟩ := Bom.sniff_run s
  have hall := (hhead.trans hmove).trans hrun
  rw [ReadsHonestly, hfinal, ← hall.data]
  refine hall.honest_of_obliging h ?_ ?_
  · rw [Stream.InStep, hstart, hcalls]
    rfl
  · rw [hcalls]
    trivial

/-! ## Streams and memory -/

/-- What has been honest to the end has been honest after sniffing. -/
theorem ReadsHonestly.sniff {l : Lexer} {s : Stream} (h : l.ReadsHonestly s) :
    Honest s.data (Bom.sniff s).2.calls := by
  obtain ⟨n, m, -, -, hfinal, -, hrun⟩ := l.drain_openStream s
  obtain ⟨hhead, hmove⟩ := Bom.sniff_run s
  have hdata := (hhead.trans hmove).data
  rw [ReadsHonestly, hfinal, ← hdata, ← hrun.data] at h
  rw [← hdata]
  exact hrun.honest_before h

/-- If a stream is read honestly from its start, then its mark is that of its data, and the scanner
holds the bytes after the mark, normalised. -/
theorem streamScanner_holds {l : Lexer} {s : Stream} (hstart : s.position = 0) (hstep : s.InStep)
    (h : l.ReadsHonestly s) :
    (Bom.sniff s).1 = Bom.classify s.data ∧
      (streamScanner l.settings s).Holds Draft.empty
        (normalize (s.data.drop (Bom.classify s.data).length)) := by
  obtain ⟨hmark, hahead⟩ := Bom.sniff_of_honest hstart hstep h.sniff
  obtain ⟨n, m, hend, hsource, hfinal, hpos, hrun⟩ := l.drain_openStream s
  obtain ⟨hhead, hmove⟩ := Bom.sniff_run s
  have hsniff := hhead.trans hmove
  have hhonest : Honest n.input.stream.data n.input.stream.calls := by
    rw [hrun.data, hsniff.data, ← hfinal]
    exact h
  refine ⟨hmark, Feed.stream_accounts.holds ⟨_, rfl, ⟨hsniff.inStep hstep, rfl⟩, ?_⟩ l.settings
    Draft.empty hend ?_⟩
  · rw [← hahead]
    rfl
  · change Feed.Sound (Scanner.after m (streamScanner l.settings s) Draft.empty).1.window.source
    rw [hsource]
    exact ⟨hpos, hhonest⟩

/-- Streams are read like memory: a lexer bound to a stream that answers honestly finds the mark of
its data, and what is seen of it from then on is what is seen of a lexer bound to the bytes after the
mark, normalised. -/
theorem openStream_eq_openMemory (l : Lexer) (data : List UInt8) (reads : List ReadOutcome)
    (failure : Option FileError) (seeks : List Bool)
    (h : l.ReadsHonestly ⟨data, 0, reads, failure, seeks, []⟩) :
    (l.openStream ⟨data, 0, reads, failure, seeks, []⟩).1 = Bom.classify data ∧
      ∀ n, observations n (l.openStream ⟨data, 0, reads, failure, seeks, []⟩).2 =
        observations n (l.openMemory (normalize (data.drop (Bom.classify data).length))) := by
  obtain ⟨hmark, hstream⟩ :=
    streamScanner_holds (s := ⟨data, 0, reads, failure, seeks, []⟩) rfl rfl h
  refine ⟨hmark, ?_⟩
  intro n
  have hmemory := (Feed.memory_delivers
    ⟨normalize (data.drop (Bom.classify data).length)⟩).holds l.settings Draft.empty
  rw [openStream_eq, observations_eq rfl, openMemory, observations_eq rfl]
  simp only [Session.ofFeed]
  rw [Scanner.readingsN_eq hstream, Scanner.readingsN_eq hmemory]
  rfl

/-- A byte-order mark, a letter, a line end and a carriage return, with reads that are short or
interrupted and that end between the two bytes of the line end. -/
theorem openStream_eq_openMemory_of_short_reads :
    ((ofSettings ⟨true, 0⟩).openStream
        ⟨[0xEF, 0xBB, 0xBF, 0x61, 0x0D, 0x0A, 0x0D], 0,
          [.upTo 1, .interrupted, .upTo 3, .upTo 2, .interrupted], none, [true], []⟩).1 = .utf8 ∧
      observations 4 ((ofSettings ⟨true, 0⟩).openStream
        ⟨[0xEF, 0xBB, 0xBF, 0x61, 0x0D, 0x0A, 0x0D], 0,
          [.upTo 1, .interrupted, .upTo 3, .upTo 2, .interrupted], none, [true], []⟩).2 =
        observations 4 ((ofSettings ⟨true, 0⟩).openMemory [0x61, 0x0A, 0x0D]) := by
  have hobliging : Stream.Obliging ⟨[0xEF, 0xBB, 0xBF, 0x61, 0x0D, 0x0A, 0x0D], 0,
      [.upTo 1, .interrupted, .upTo 3, .upTo 2, .interrupted], none, [true], []⟩ := by
    refine ⟨?_, rfl, by decide⟩
    simp
  obtain ⟨hmark, hsame⟩ := openStream_eq_openMemory (ofSettings ⟨true, 0⟩) _ _ _ _
    (readsHonestly_of_obliging _ hobliging rfl rfl)
  exact ⟨hmark, hsame 4⟩

end Lexer

end Listfile
