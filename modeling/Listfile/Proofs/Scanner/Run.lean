import Listfile.Proofs.Scanner.Next

/-!
# Runs of a scanner read the segments of the input

A run asks for one token after the other, past the end of the input as often as one likes. On the
side of segments a run is `Context.readings`: it walks along the list of segments and needs no source,
no window and no draft. The two agree (`readingsN_eq`) as soon as it is known which bytes the run
consumes on its way to the end of the input (`Holds`).

Every run comes to the end of its input (`exists_atEnd`), so there always are such bytes, and they are
what the source hands out.
-/

namespace Listfile

/-! ## Reading segments -/

/-- The next token of consecutive segments, with the context and the segments after it. Segments
without a token are passed over. -/
def Context.nextToken (emitSpace : Bool) : Context → List Segment → Token × Context × List Segment
  | c, [] => (⟨.nothing, [], c.position⟩, c, [])
  | c, seg :: rest =>
    match c.token? emitSpace seg with
    | some t => (t, c.next seg, rest)
    | none => nextToken emitSpace (c.next seg) rest

/-- The next `n` readings of consecutive segments, ends of the input included. -/
def Context.readings (emitSpace : Bool) : Nat → Context → List Segment → List Scanner.Reading
  | 0, _, _ => []
  | n + 1, c, segs =>
    let r := c.nextToken emitSpace segs
    ⟨r.1, r.2.1.position⟩ :: readings emitSpace n r.2.1 r.2.2

/-- No segment has the end of the input for its token. -/
theorem Segment.kind?_ne_nothing (seg : Segment) (depth : Nat) :
    seg.kind? depth ≠ some .nothing := by
  cases seg with
  | word bytes =>
    intro hkind
    rcases Kind.ofWord_cases depth bytes with hword | hword <;> rw [Segment.kind?, hword] at hkind <;>
      cases hkind
  | quoted body closed => cases closed <;> simp [Segment.kind?]
  | bracket comment level body closed =>
    cases closed <;> cases comment <;> simp [Segment.kind?]
  | _ => simp [Segment.kind?]

/-- The token of a segment is never the end of the input. -/
theorem Context.kind_ne_nothing_of_token? {c : Context} {emitSpace : Bool} {seg : Segment}
    {t : Token} (h : c.token? emitSpace seg = some t) : t.kind ≠ .nothing := by
  intro hnothing
  have hkind := (Context.eq_of_token? h).1
  rw [hnothing] at hkind
  exact seg.kind?_ne_nothing c.depth hkind

namespace Scanner

variable {σ : Type} [Source σ]

/-! ## One call -/

/-- A call passes over bytes and reads from them what is to be read from their segments, whatever
lies ahead afterwards. -/
theorem Scans.agrees {s s' : Scanner σ} {t : Token} (h : s.Scans t s') :
    ∃ bytes, s.window.Path bytes s'.window ∧ s'.emitSpace = s.emitSpace ∧
      ∀ rest, s'.window.Ahead rest →
        s.context.nextToken s.emitSpace (segments (bytes ++ rest)) =
          (t, s'.context, segments rest) := by
  induction h with
  | skip hreads hsilent _ ih =>
    obtain ⟨bytes, hpath, hemit, hnext⟩ := ih
    refine ⟨_, hreads.path.trans hpath, hemit.trans hreads.emitSpace, ?_⟩
    intro rest hrest
    rw [List.append_assoc, segments_append (hreads.first _ (hpath.ahead hrest)), Context.nextToken,
      hsilent]
    simp only [← hreads.context, ← hreads.emitSpace, hnext rest hrest]
  | found hreads htoken =>
    refine ⟨_, hreads.path, hreads.emitSpace, ?_⟩
    intro rest hrest
    rw [segments_append (hreads.first _ hrest), Context.nextToken, htoken]
    simp only [hreads.context]
  | ended hpass hend =>
    refine ⟨_, hpass.path, hpass.emitSpace, ?_⟩
    intro rest hrest
    rw [hend.eq_nil hrest, List.append_nil, hpass.context_eq, segments, Context.nextToken]
    rfl

/-- A call gives the end of the input only at the end. -/
theorem Scans.atEnd {s s' : Scanner σ} {t : Token} (h : s.Scans t s')
    (hkind : t.kind = .nothing) : s'.window.AtEnd := by
  induction h with
  | skip _ _ _ ih => exact ih hkind
  | found _ htoken => exact absurd hkind (Context.kind_ne_nothing_of_token? htoken)
  | ended _ hend => exact hend

/-! ## Whole runs -/

/-- Each call gives one reading. -/
theorem length_readingsN (n : Nat) (s : Scanner σ) (d : Draft) :
    (readingsN n s d).1.length = n := by
  induction n generalizing s d with
  | zero => rfl
  | succ n ih => rw [readingsN, List.length_cons, ih]

/-- The state after `n` calls. -/
def after (n : Nat) (s : Scanner σ) (d : Draft) : Scanner σ × Draft :=
  (readingsN n s d).2

/-- Calls after other calls are calls from the state that these lead to. -/
theorem after_add (n m : Nat) (s : Scanner σ) (d : Draft) :
    after (n + m) s d = after m (after n s d).1 (after n s d).2 := by
  induction n generalizing s d with
  | zero => rw [Nat.zero_add]; rfl
  | succ n ih =>
    rw [Nat.add_right_comm]
    exact ih (next s d).1 (next s d).2

/-- A run goes along a path. -/
theorem after_path (n : Nat) (s : Scanner σ) (d : Draft) :
    ∃ bytes, s.window.Path bytes (after n s d).1.window := by
  induction n generalizing s d with
  | zero => exact ⟨[], .stay _⟩
  | succ n ih =>
    obtain ⟨bytes, hpath, -, -⟩ := (next_scans s d).agrees
    obtain ⟨more, hmore⟩ := ih (next s d).1 (next s d).2
    exact ⟨bytes ++ more, hpath.trans hmore⟩

/-- Every run comes to the end of the input. -/
theorem exists_atEnd (s : Scanner σ) (d : Draft) : ∃ n, (after n s d).1.window.AtEnd := by
  -- A call that gives another token than the end leaves a smaller window.
  fun_induction readings s d with
  | case1 s d r hkind => exact ⟨1, (next_scans s d).atEnd hkind⟩
  | case2 s d r hkind hafter more ih =>
    obtain ⟨n, hend⟩ := ih
    exact ⟨n + 1, hend⟩

/-- Read to the end, the scanner `s` with the draft `d` consumes exactly `input`. -/
def Holds (s : Scanner σ) (d : Draft) (input : List UInt8) : Prop :=
  ∃ n, (after n s d).1.window.AtEnd ∧ s.window.Path input (after n s d).1.window

/-- The input held can lie ahead. -/
theorem Holds.ahead {s : Scanner σ} {d : Draft} {input : List UInt8} (h : s.Holds d input) :
    s.window.Ahead input := by
  obtain ⟨n, hend, hpath⟩ := h
  have hrest : (after n s d).1.window.Ahead [] := by
    have hunread := (after n s d).1.window.ahead_unread
    rwa [hend.unread] at hunread
  have hahead := hpath.ahead hrest
  rwa [List.append_nil] at hahead

/-- After one call the scanner holds what it held before without the bytes consumed. -/
theorem Holds.next {s : Scanner σ} {d : Draft} {input bytes : List UInt8} (h : s.Holds d input)
    (hpath : s.window.Path bytes (next s d).1.window) :
    ∃ rest, input = bytes ++ rest ∧ (next s d).1.Holds (next s d).2 rest := by
  obtain ⟨n, hend, hinput⟩ := h
  cases n with
  | zero =>
    have hnil : input = [] := hinput.bytes_unique (.stay s.window)
    obtain ⟨hbytes, hnext⟩ := hpath.of_atEnd hend
    refine ⟨[], ?_, 0, hnext, .stay _⟩
    rw [hnil, hbytes, List.append_nil]
  | succ n =>
    obtain ⟨rest, hrest⟩ := after_path n (Scanner.next s d).1 (Scanner.next s d).2
    exact ⟨rest, hinput.bytes_unique (hpath.trans hrest), n, hend, hrest⟩

/-- The readings of a scanner are those of the segments of the input that it holds. -/
theorem readingsN_eq {s : Scanner σ} {d : Draft} {input : List UInt8} (h : s.Holds d input)
    (n : Nat) :
    (readingsN n s d).1 = s.context.readings s.emitSpace n (segments input) := by
  induction n generalizing s d input with
  | zero => rfl
  | succ n ih =>
    obtain ⟨bytes, hpath, hemit, hnext⟩ := (next_scans s d).agrees
    obtain ⟨rest, rfl, hrest⟩ := h.next hpath
    have hhead := hnext rest hrest.ahead
    have htail := ih hrest
    rw [hemit] at htail
    simp only [readingsN, Context.readings, hhead, htail]
    rfl

end Scanner

end Listfile
