import Listfile.Proofs.Machine
import Listfile.Proofs.Positions
import Listfile.Proofs.Tokens

/-!
# Scanning can start again after any token

Between two calls a scanner has a window, an input that has ended or not, a draft with its storage, a
position and a number of open parentheses. What it gives from there on depends on the bytes that are
not consumed, on that number and on the position alone: a fresh scanner on these bytes, with as many
parentheses open, gives the same, and only the positions are counted from elsewhere (`restarts`). The
machine behind a scanner also has a mode and the level and kind of a bracket read before; the mode is
the default one between two calls, and the other two do not count there.

Positions are moved by `Position.shift`: lines add up, and columns do so on the first line of the
rest. Moving commutes with reading a byte as long as no number comes to the limit (`Fits.step`), and
so with reading the segments of the rest, one after the other (`nextToken_shift`, `readings_shift`).
-/

namespace Listfile

/-! ## Moving positions -/

namespace Position

/-- The position that is `q` when counted from `base` instead of the start. -/
def shift (q base : Position) : Position :=
  if q.line = 1 then ⟨base.line + q.line - 1, base.column + q.column - 1⟩
  else ⟨base.line + q.line - 1, q.column⟩

/-- Counted from `base`, the start is `base` itself. -/
theorem start_shift (base : Position) : start.shift base = base := rfl

/-- Lines and columns count from one, and `n` more bytes do not take them past the limit. -/
structure Roomy (p : Position) (n : Nat) : Prop where
  /-- There is a first line. -/
  line_pos : 0 < p.line
  /-- There is a first column. -/
  column_pos : 0 < p.column
  /-- The bytes could all be newlines. -/
  line_le : p.line + n ≤ limit
  /-- The bytes could all be on this line. -/
  column_le : p.column + n ≤ limit

/-- The start has room for fewer bytes than the limit. -/
theorem start_roomy {n : Nat} (h : n < limit) : start.Roomy n := by
  have hle : 1 + n ≤ limit := by omega
  exact ⟨Nat.one_pos, Nat.one_pos, hle, hle⟩

/-- What has room for more bytes has room for fewer. -/
theorem Roomy.of_le {p : Position} {n m : Nat} (h : p.Roomy m) (hle : n ≤ m) : p.Roomy n := by
  have hline := h.line_le
  have hcolumn := h.column_le
  exact ⟨h.line_pos, h.column_pos, by omega, by omega⟩

/-- A byte takes up room for one. -/
theorem Roomy.step {p : Position} {n : Nat} (h : p.Roomy (n + 1)) (b : UInt8) :
    (p.step b).Roomy n := by
  obtain ⟨hline, hcolumn, hline', hcolumn'⟩ := h
  unfold Position.step
  split
  · constructor <;> simp only [] <;> omega
  · constructor <;> simp only [] <;> omega

/-- Bytes take up as much room as there are of them. -/
theorem Roomy.advance {p : Position} {bytes : List UInt8} {n : Nat}
    (h : p.Roomy (bytes.length + n)) : (p.advance bytes).Roomy n := by
  induction bytes generalizing p with
  | nil => exact h.of_le (Nat.le_add_left n 0)
  | cons b bytes ih =>
    rw [List.length_cons, Nat.add_right_comm] at h
    exact ih (h.step b)

/-- A rest of `n` bytes can be read from `q` on, and from there counted from `base`. -/
structure Fits (base q : Position) (n : Nat) : Prop where
  /-- The base leaves room. -/
  whole : base.Roomy n
  /-- So does the position in the rest. -/
  rest : q.Roomy n
  /-- And so does the position in the whole. -/
  moved : (q.shift base).Roomy n

/-- At the start of the rest it fits if the base has room. -/
theorem Roomy.fits {base : Position} {n : Nat} (h : base.Roomy n) : Fits base start n := by
  have hline := h.line_le
  have hpos := h.line_pos
  exact ⟨h, start_roomy (by omega), h⟩

/-- What has room is below the limit. -/
theorem Roomy.step_eq {p : Position} {n : Nat} (h : p.Roomy (n + 1)) (b : UInt8) :
    p.step b = if b = Byte.newline then ⟨p.line + 1, 1⟩ else ⟨p.line, p.column + 1⟩ := by
  have hline := h.line_le
  have hcolumn := h.column_le
  rw [Position.step, Nat.min_eq_left (by omega), Nat.min_eq_left (by omega)]

/-- Moving and reading a byte can be done in either order. -/
theorem Fits.step {base q : Position} {n : Nat} (h : Fits base q (n + 1)) (b : UInt8) :
    (q.shift base).step b = (q.step b).shift base ∧ Fits base (q.step b) n := by
  have hstep : (q.shift base).step b = (q.step b).shift base := by
    have hline := h.whole.line_pos
    have hqline := h.rest.line_pos
    have hqcolumn := h.rest.column_pos
    rw [h.moved.step_eq, h.rest.step_eq]
    unfold shift
    by_cases hb : b = Byte.newline
    · -- A newline takes the rest past its first line.
      have hnext : q.line + 1 ≠ 1 := by omega
      rw [if_pos hb, if_pos hb, if_neg hnext]
      split <;> simp only [Position.mk.injEq, and_true] <;> omega
    · rw [if_neg hb, if_neg hb]
      split
      · simp only [Position.mk.injEq, true_and]
        omega
      · rfl
  refine ⟨hstep, h.whole.of_le (Nat.le_succ n), h.rest.step b, ?_⟩
  rw [← hstep]
  exact h.moved.step b

/-- Moving and reading bytes can be done in either order. -/
theorem Fits.advance {base q : Position} {bytes : List UInt8} {n : Nat}
    (h : Fits base q (bytes.length + n)) :
    (q.shift base).advance bytes = (q.advance bytes).shift base ∧
      Fits base (q.advance bytes) n := by
  induction bytes generalizing q with
  | nil =>
    rw [List.length_nil, Nat.zero_add] at h
    exact ⟨rfl, h⟩
  | cons b bytes ih =>
    rw [List.length_cons, Nat.add_right_comm] at h
    obtain ⟨hstep, hnext⟩ := h.step b
    rw [advance_cons, advance_cons, hstep]
    exact ih hnext

end Position

/-! ## Moving what is read from segments -/

/-- The token with its position counted from `base`. -/
def Token.shift (t : Token) (base : Position) : Token :=
  { t with position := t.position.shift base }

/-- The reading with both positions counted from `base`. -/
def Scanner.Reading.shift (r : Scanner.Reading) (base : Position) : Scanner.Reading :=
  ⟨r.token.shift base, r.after.shift base⟩

namespace Context

/-- The context with its position counted from `base`. -/
def shift (c : Context) (base : Position) : Context :=
  ⟨c.position.shift base, c.depth⟩

/-- Segments that can be read from a context on, and from there counted from `base`. -/
def Fits (base : Position) (c : Context) (segs : List Segment) : Prop :=
  Position.Fits base c.position (segs.flatMap Segment.spelling).length

/-- A segment has the same token elsewhere, moved. -/
theorem token?_shift (c : Context) (base : Position) (emitSpace : Bool) (seg : Segment) :
    (c.shift base).token? emitSpace seg = (c.token? emitSpace seg).map (·.shift base) := by
  unfold token?
  cases hkind : seg.kind? c.depth with
  | none => simp only [shift, hkind, Option.map_none]
  | some kind =>
    simp only [shift, hkind]
    split <;> rfl

/-- Moving and reading a segment can be done in either order. -/
theorem Fits.next {base : Position} {c : Context} {seg : Segment} {segs : List Segment}
    (h : Fits base c (seg :: segs)) :
    (c.shift base).next seg = (c.next seg).shift base ∧ Fits base (c.next seg) segs := by
  unfold Fits at h
  rw [List.flatMap_cons, List.length_append] at h
  obtain ⟨hposition, hnext⟩ := h.advance
  refine ⟨?_, hnext⟩
  unfold Context.next
  rw [shift, hposition]
  rfl

/-- Moving and reading a token can be done in either order. -/
theorem nextToken_shift {base : Position} {emitSpace : Bool} {c c' : Context}
    {segs segs' : List Segment} {t : Token} (h : Fits base c segs)
    (hnext : c.nextToken emitSpace segs = (t, c', segs')) :
    (c.shift base).nextToken emitSpace segs = (t.shift base, c'.shift base, segs') ∧
      Fits base c' segs' := by
  induction segs generalizing c with
  | nil =>
    rw [nextToken] at hnext
    cases hnext
    exact ⟨rfl, h⟩
  | cons seg rest ih =>
    obtain ⟨hmoved, hrest⟩ := h.next
    rw [nextToken] at hnext ⊢
    rw [token?_shift, hmoved]
    cases htoken : c.token? emitSpace seg with
    | none =>
      simp only [htoken] at hnext
      exact ih hrest hnext
    | some found =>
      simp only [htoken] at hnext
      cases hnext
      exact ⟨rfl, hrest⟩

/-- The readings of segments are the same elsewhere, moved. -/
theorem readings_shift {base : Position} {emitSpace : Bool} {c : Context} {segs : List Segment}
    (h : Fits base c segs) (n : Nat) :
    (c.shift base).readings emitSpace n segs =
      (c.readings emitSpace n segs).map (·.shift base) := by
  induction n generalizing c segs with
  | zero => rfl
  | succ n ih =>
    obtain ⟨hnext, hrest⟩ := nextToken_shift h (Eq.refl (c.nextToken emitSpace segs))
    rw [readings, readings, hnext, List.map_cons, ← ih hrest]
    rfl

/-- The tokens of segments are the same elsewhere, moved. -/
theorem tokensOf_shift {base : Position} {emitSpace : Bool} {c : Context} {segs : List Segment}
    (h : Fits base c segs) :
    tokensOf emitSpace (c.shift base) segs = (tokensOf emitSpace c segs).map (·.shift base) := by
  induction segs generalizing c with
  | nil => rfl
  | cons seg rest ih =>
    obtain ⟨hmoved, hrest⟩ := h.next
    rw [tokensOf, tokensOf, List.map_append, token?_shift, hmoved, ih hrest]
    cases c.token? emitSpace seg <;> rfl

end Context

namespace Scanner

/-! ## Starting again -/

/-- A scanner at the start of a source, with the given number of parentheses open. -/
def ofSourceWithin {σ : Type} (depth : Nat) (settings : Settings) (source : σ) : Scanner σ :=
  { ofSource settings source with depth }

/-- Such a scanner too holds the bytes that its source delivers. -/
theorem ofSourceWithin_holds {σ : Type} [Source σ] {source : σ} {bytes : List UInt8}
    (h : Source.Delivers source bytes) (depth : Nat) (settings : Settings) (d : Draft) :
    (ofSourceWithin depth settings source).Holds d bytes :=
  h.holds_of_window rfl d

/-- What the scanner of `now` gives from here on is what a fresh one on `rest` gives, with positions
counted from where it stands. -/
structure Restarts (settings : Settings) (rest : List UInt8) (now : Scanner Memory × Draft) :
    Prop where
  /-- The readings are the same, one by one, if as many parentheses are open. -/
  readings : ∀ m, (readingsN m now.1 now.2).1 =
    (readingsN m (ofSourceWithin now.1.depth settings (⟨rest⟩ : Memory)) Draft.empty).1.map
      (·.shift now.1.position)
  /-- So they are for a machine that is kept from call to call, whatever level and kind of a bracket it
  remembers from before, if it is in its default mode. -/
  machine : ∀ m : Machine Memory, m.scanner = now.1 → m.mode = .default → ∀ n, ∃ found m₁ m₂ d₁ d₂,
    (Machine.ofScanner (ofSourceWithin now.1.depth settings (⟨rest⟩ : Memory))).readingsN n
      Draft.empty = .ok (found, m₂, d₂) ∧
    m.readingsN n now.2 = .ok (found.map (·.shift now.1.position), m₁, d₁) ∧ m₁.mode = .default
  /-- If none is open, the tokens up to the end are those of the rest. -/
  tokens : now.1.depth = 0 → now.1.tokens now.2 =
    ((ofSource settings (⟨rest⟩ : Memory)).tokens Draft.empty).map (·.shift now.1.position)
  /-- If also blank runs are no tokens, they are those of the whole lexer. -/
  tokenize : now.1.depth = 0 → settings.emitSpace = false →
    now.1.tokens now.2 = (Listfile.tokenize rest).map (·.shift now.1.position)
  /-- If blank runs are tokens, this is so for the other tokens. -/
  visible : now.1.depth = 0 → (now.1.tokens now.2).filter (fun t => t.kind ≠ .space) =
    (Listfile.tokenize rest).map (·.shift now.1.position)

/-- A scanner that holds `rest` can be replaced by a fresh one, if its position leaves room. -/
theorem Holds.restarts_of_roomy {settings : Settings} {now : Scanner Memory × Draft}
    {rest : List UInt8} (h : now.1.Holds now.2 rest) (hemit : now.1.emitSpace = settings.emitSpace)
    (hroomy : now.1.position.Roomy rest.length) : Restarts settings rest now := by
  -- The scanner stands where the start of the rest is moved to.
  have hcontext : now.1.context =
      (⟨Position.start, now.1.depth⟩ : Context).shift now.1.position := by
    rw [context, Context.shift, Position.start_shift]
  have hfits : Context.Fits now.1.position ⟨Position.start, now.1.depth⟩ (segments rest) := by
    rw [Context.Fits, flatMap_spelling_segments]
    exact hroomy.fits
  have htokens : ∀ emitSpace, now.1.depth = 0 →
      tokensOf emitSpace now.1.context (segments rest) =
        (tokensOf emitSpace Context.start (segments rest)).map (·.shift now.1.position) := by
    intro emitSpace hdepth
    rw [hcontext, Context.tokensOf_shift hfits, hdepth]
    rfl
  have hreadings : ∀ m, (readingsN m now.1 now.2).1 =
      (readingsN m (ofSourceWithin now.1.depth settings (⟨rest⟩ : Memory)) Draft.empty).1.map
        (·.shift now.1.position) := by
    intro m
    have hfresh := ofSourceWithin_holds (Memory.delivers ⟨rest⟩) now.1.depth settings Draft.empty
    rw [readingsN_eq h, readingsN_eq hfresh, hcontext, hemit]
    exact Context.readings_shift hfits m
  refine ⟨hreadings, ?_, ?_, ?_, ?_⟩
  · intro m hscanner hmode n
    obtain ⟨m₁, hkept, -, hmode₁⟩ := Machine.readingsN_of_default hmode n now.2
    obtain ⟨m₂, hfresh, -, -⟩ := Machine.readingsN_of_default
      (m := Machine.ofScanner (ofSourceWithin now.1.depth settings (⟨rest⟩ : Memory))) rfl n
      Draft.empty
    rw [hscanner, hreadings] at hkept
    exact ⟨_, m₁, m₂, _, _, hfresh, hkept, hmode₁⟩
  · intro hdepth
    have hfresh := (Memory.delivers ⟨rest⟩).holds settings Draft.empty
    rw [h.tokens_eq, hfresh.tokens_eq, htokens _ hdepth, hemit]
    rfl
  · intro hdepth hsilent
    rw [h.tokens_eq, htokens _ hdepth, hemit, hsilent]
    rfl
  · intro hdepth
    rw [h.tokens_eq, ← tokensOf_false_eq_filter, htokens _ hdepth]
    rfl

/-- Scanning can start again after any number of calls, if the input is shorter than the greatest
line and column. -/
theorem restarts (settings : Settings) (b : List UInt8) (h : b.length < Position.limit) (k : Nat) :
    Restarts settings
      (b.drop (after k (ofSource settings (⟨b⟩ : Memory)) Draft.empty).1.window.taken)
      (after k (ofSource settings (⟨b⟩ : Memory)) Draft.empty) := by
  have hinput : (ofSource settings (⟨b⟩ : Memory)).Holds Draft.empty b :=
    (Memory.delivers ⟨b⟩).holds settings Draft.empty
  obtain ⟨done, rest, rfl, hpath, hposition, hemit, hrest⟩ := hinput.after k
  have htaken : (after k (ofSource settings (⟨done ++ rest⟩ : Memory)) Draft.empty).1.window.taken =
      done.length := hpath.taken.trans (Nat.zero_add _)
  rw [htaken, List.drop_left]
  apply hrest.restarts_of_roomy hemit
  rw [hposition]
  apply Position.Roomy.advance
  rw [← List.length_append]
  exact Position.start_roomy h

/-- Scanning can start again behind a backslash that starts no token. -/
theorem restarts_after_stray :
    (after 1 (ofSource ⟨false, 0⟩ (⟨[Byte.backslash, Byte.newline, Byte.space, 0x61]⟩ : Memory))
        Draft.empty).2.kind = .badCharacter ∧
      Restarts ⟨false, 0⟩
        ([Byte.backslash, Byte.newline, Byte.space, 0x61].drop
          (after 1 (ofSource ⟨false, 0⟩
            (⟨[Byte.backslash, Byte.newline, Byte.space, 0x61]⟩ : Memory))
            Draft.empty).1.window.taken)
        (after 1 (ofSource ⟨false, 0⟩
          (⟨[Byte.backslash, Byte.newline, Byte.space, 0x61]⟩ : Memory)) Draft.empty) := by
  have hholds := (Memory.delivers ⟨[Byte.backslash, Byte.newline, Byte.space, 0x61]⟩).holds ⟨false, 0⟩
    Draft.empty
  have hkinds : (Context.start.readings false 1
      (segments [Byte.backslash, Byte.newline, Byte.space, 0x61])).map (·.token.kind) =
        [.badCharacter] := by decide +kernel
  refine ⟨?_, restarts ⟨false, 0⟩ [Byte.backslash, Byte.newline, Byte.space, 0x61] (by decide) 1⟩
  have hreading := congrArg (List.map (·.token.kind)) (readingsN_eq hholds 1)
  exact List.head_eq_of_cons_eq (hreading.trans hkinds)

end Scanner

end Listfile
