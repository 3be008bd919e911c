import Listfile.Proofs.Delivery
import Listfile.Proofs.Lexeme

/-!
# Nothing is lost between tokens

The tokens of an input say where its bytes have gone. `Cuts` reads the input from left to right
alongside the tokens: before each lexeme and after the last one stand only line comments and, if
blank runs are no tokens, blanks; each lexeme has at least one byte and is how its token is written;
and blank runs that are tokens cannot be made longer. So the bytes that no token shows are accounted
for, and every token shows its own.

`tokens_cuts` says this of all scanners on bytes in memory. It is an induction over the calls: each
cuts a gap and a lexeme off the input (`Holds.cut`), and the offsets are the lengths of what has been
cut off before.
-/

namespace Listfile

/-- From the offset `e` on, the bytes `b` are cut into gaps and the lexemes of the given tokens. -/
inductive Cuts (emitSpace : Bool) (b : List UInt8) : Nat → List Token → Prop where
  /-- After the last lexeme everything is skipped. -/
  | tail {e : Nat} (le : e ≤ b.length) (skipped : Skipped emitSpace (b.drop e) []) :
      Cuts emitSpace b e []
  /-- The first lexeme goes from `start` to `stop`, and what is before it is skipped. -/
  | token {e start stop : Nat} {t : Token} {tokens : List Token} (gap : e ≤ start)
      (lexeme : start < stop) (le : stop ≤ b.length)
      (skipped : Skipped emitSpace (b.extract e start) (b.drop start))
      (written : t.Lexeme (b.extract start stop) (b.drop stop))
      -- No blank follows a blank run, and one right before it is escaped.
      (maximal : t.kind = .space → EndsEscaped (b.take start) ∧
        ∀ c, b[stop]? = some c → Byte.isBlank c = false)
      (later : Cuts emitSpace b stop tokens) : Cuts emitSpace b e (t :: tokens)

/-- A gap and a lexeme after what is done already are cut off at their ends. -/
theorem Cuts.of_append {emitSpace : Bool} {b done gap lexeme rest : List UInt8} {t : Token}
    {tokens : List Token} (hb : b = done ++ (gap ++ (lexeme ++ rest))) (hne : lexeme ≠ [])
    (hskipped : Skipped emitSpace gap (lexeme ++ rest)) (hlexeme : t.Lexeme lexeme rest)
    (hmaximal : t.kind = .space → EndsEscaped (done ++ gap) ∧
      ∀ c, rest.head? = some c → Byte.isBlank c = false)
    (hlater : Cuts emitSpace b (done ++ gap ++ lexeme).length tokens) :
    Cuts emitSpace b done.length (t :: tokens) := by
  obtain ⟨hgap, hstart, hmiddle, hstop⟩ := offsets_of_append hb
  have hlength : (done ++ gap ++ lexeme).length = (done ++ gap).length + lexeme.length :=
    List.length_append
  have hpos := List.length_pos_iff.2 hne
  refine @Cuts.token _ _ _ (done ++ gap).length (done ++ gap ++ lexeme).length _ _
    (List.prefix_append _ _).length_le (by omega) ?_ ?_ ?_ ?_ hlater
  · rw [hb, ← List.append_assoc, ← List.append_assoc]
    exact (List.prefix_append _ _).length_le
  · rw [hgap, hstart]
    exact hskipped
  · rw [hmiddle, hstop]
    exact hlexeme
  · intro hspace
    obtain ⟨hbefore, hafter⟩ := hmaximal hspace
    constructor
    · rw [hb, ← List.append_assoc, List.take_left]
      exact hbefore
    · intro c hc
      rw [← List.head?_drop, hstop] at hc
      exact hafter c hc

/-! ## Blank runs -/

/-- Bytes that are all blanks do not end with an escaped one. -/
theorem not_endsEscaped_of_blank {run : List UInt8} (hne : run ≠ [])
    (h : ∀ b ∈ run, Byte.isBlank b = true) : ¬ EndsEscaped run := by
  intro hescaped
  have hsplit := List.dropLast_concat_getLast hne
  have hback := hescaped _ _ hsplit.symm (h _ (List.getLast_mem hne))
  have hmem : Byte.backslash ∈ run := by
    rw [← hsplit]
    exact List.mem_append_left _ (hback.mem List.mem_cons_self)
  exact absurd (h _ hmem) (by decide)

/-- Where blank runs are tokens, what is skipped before a token does not end with a blank. -/
theorem Skipped.endsEscaped {gap rest : List UInt8} (h : Skipped true gap rest) (hrest : rest ≠ []) :
    EndsEscaped gap := by
  induction h with
  | none => exact endsEscaped_nil
  | blank hsilent => cases hsilent
  | @comment body gap rest _ _ ih =>
    by_cases hnil : gap = []
    · rw [hnil]
      exact endsEscaped_of_last (Byte.hash :: body) (by decide)
    · have happend := (ih hrest).append hnil (Byte.hash :: (body ++ [Byte.newline]))
      rwa [List.cons_append, List.append_assoc] at happend
  | lastComment => exact absurd rfl hrest

/-- The lexeme of a blank run is the longest run of blanks there, if a blank right before it is
escaped. -/
theorem Token.Lexeme.maximal {t : Token} {done gap lexeme rest : List UInt8}
    (h : t.Lexeme lexeme rest) (hspace : t.kind = .space) (hgap : Skipped true gap (lexeme ++ rest))
    (hdone : ∀ b, (gap ++ (lexeme ++ rest)).head? = some b → Byte.isBlank b = true →
      EndsEscaped done) :
    EndsEscaped (done ++ gap) ∧ ∀ b, rest.head? = some b → Byte.isBlank b = false := by
  have hblank : ∀ b ∈ lexeme, Byte.isBlank b = true := by
    have hspells := h.spells
    rw [Token.Spells, hspace] at hspells
    exact hspells.2
  have hne : lexeme ≠ [] := h.ne_nil (by rw [hspace]; decide)
  constructor
  · by_cases hnil : gap = []
    · -- The run follows the previous lexeme at once.
      obtain ⟨b, later, rfl⟩ := List.exists_cons_of_ne_nil hne
      rw [hnil, List.append_nil]
      refine hdone b ?_ (hblank b List.mem_cons_self)
      rw [hnil]
      rfl
    · refine (hgap.endsEscaped ?_).append hnil done
      exact fun happend => hne (List.append_eq_nil_iff.1 happend).1
  · intro b hhead
    apply Bool.eq_false_iff.2
    intro hb
    exact not_endsEscaped_of_blank hne hblank (h.apart b hhead hb)

namespace Scanner

variable {σ : Type} [Source σ]

/-! ## All tokens -/

/-- The tokens that a scanner gives before the first end of the input. -/
def tokens (s : Scanner σ) (d : Draft) : List Token :=
  ((readings s d).1.map Reading.token).takeWhile fun t => t.kind ≠ .nothing

/-- If the next token is the end of the input, there are no tokens. -/
theorem tokens_of_nothing {s : Scanner σ} {d : Draft} (h : (next s d).2.kind = .nothing) :
    s.tokens d = [] := by
  rw [tokens, readings, dif_pos h]
  rw [List.map_cons, List.takeWhile_cons_of_neg]
  exact fun hne => of_decide_eq_true hne h

/-- Any other token comes first. -/
theorem tokens_of_ne_nothing {s : Scanner σ} {d : Draft} (h : (next s d).2.kind ≠ .nothing) :
    s.tokens d = (next s d).2.token :: (next s d).1.tokens (next s d).2 := by
  rw [tokens, readings, dif_neg h]
  rw [List.map_cons, List.takeWhile_cons_of_pos]
  · rfl
  · exact decide_eq_true h

/-- The input held is cut into gaps and the lexemes of the tokens, whatever has been consumed
before. -/
theorem Holds.cuts {s : Scanner σ} {d : Draft} {input : List UInt8} (h : s.Holds d input)
    (done : List UInt8)
    (hdone : ∀ b, input.head? = some b → Byte.isBlank b = true → EndsEscaped done) :
    Cuts s.emitSpace (done ++ input) done.length (s.tokens d) := by
  -- A call that gives another token than the end leaves a smaller window.
  fun_induction readings s d generalizing input done with
  | case1 s d r =>
    rename_i hkind
    obtain ⟨gap, lexeme, rest, rfl, hcut, -⟩ := h.cut
    have hkind' : (Scanner.next s d).2.token.kind = .nothing := hkind
    have hlexeme : lexeme = [] := by
      have hspells := hcut.lexeme.spells
      rwa [Token.Spells, hkind'] at hspells
    have hrest : rest = [] := hcut.lexeme.last (.inl hkind)
    have hskipped := hcut.skipped
    rw [hlexeme, hrest] at hskipped
    rw [tokens_of_nothing hkind, hlexeme, hrest, List.append_nil, List.append_nil]
    apply Cuts.tail
    · rw [List.length_append]
      omega
    · rw [List.drop_left]
      exact hskipped
  | case2 s d r hkind hafter more =>
    rename_i ih
    obtain ⟨gap, lexeme, rest, rfl, hcut, hrest⟩ := h.cut
    have hne : lexeme ≠ [] := hcut.lexeme.ne_nil hkind
    have hlater := ih hrest (done ++ gap ++ lexeme) fun b hhead hblank =>
      (hcut.lexeme.apart b hhead hblank).append hne _
    rw [hcut.emitSpace, List.append_assoc, List.append_assoc] at hlater
    rw [tokens_of_ne_nothing hkind]
    refine Cuts.of_append rfl hne hcut.skipped hcut.lexeme ?_ hlater
    intro hspace
    have hskipped := hcut.skipped
    rw [hcut.space hspace] at hskipped
    exact hcut.lexeme.maximal hspace hskipped hdone

/-- For every input and all settings, the input is cut into the lexemes of its tokens and gaps
without tokens. -/
theorem tokens_cuts (settings : Settings) (b : List UInt8) :
    Cuts settings.emitSpace b 0
      ((ofSource settings (⟨b⟩ : Memory)).tokens Draft.empty) := by
  have hholds := (Memory.delivers ⟨b⟩).holds settings Draft.empty
  exact hholds.cuts [] fun _ _ _ => endsEscaped_nil

end Scanner

end Listfile
