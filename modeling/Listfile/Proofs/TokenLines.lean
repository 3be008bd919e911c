import Listfile.Command.Report

/-!
# Token lines can be read back

The line of a token is its position, the name of its kind and its text in quotes. Nothing is lost in
it: the parts are divided by characters that do not occur in the part before, and an escaped text has
one reading only. So tokens with the same line have the same position, kind and text for display
(`showTokenBy_eq_iff`). Nor can a token break its line (`oneLine_showTokenBy`), so that the lines of a
report are one for each token, between what stands above them and the count (`linesOf_report`).

Which characters are given by their code point is a matter of tables that change. Nothing here rests on
them: `escapeBy` takes the set as a parameter, and a text that is escaped by any set has one reading,
since each character is shown in one of three ways (`Shown`), and no way of showing a character begins
another.
-/

namespace Listfile

namespace Text

/-! ## Numbers -/

/-- Up to sixteen, different digits are different characters. -/
theorem digitChar_inj : ∀ m < 16, ∀ n < 16, Nat.digitChar m = Nat.digitChar n → m = n := by
  decide

/-- The last digit of a number, and those before it. -/
theorem toDigits_eq_append {b : Nat} (hb : 1 < b) (n : Nat) :
    Nat.toDigits b n = (if n < b then [] else Nat.toDigits b (n / b)) ++ [(n % b).digitChar] := by
  rw [Nat.toDigits_eq_if hb]
  split
  · rename_i hlt
    rw [Nat.mod_eq_of_lt hlt, List.nil_append]
  · rfl

/-- Different numbers are written differently. -/
theorem toDigits_inj {b m n : Nat} (hb : 1 < b) (hle : b ≤ 16)
    (h : Nat.toDigits b m = Nat.toDigits b n) : m = n := by
  induction m using Nat.strongRecOn generalizing n with
  | _ m ih =>
    rw [toDigits_eq_append hb m, toDigits_eq_append hb n, List.append_singleton_inj] at h
    obtain ⟨hfront, hlast⟩ := h
    have hmod : m % b = n % b := by
      have hdigit : ∀ k, k % b < 16 := fun k => by have := Nat.mod_lt k (by omega : b > 0); omega
      exact digitChar_inj _ (hdigit m) _ (hdigit n) hlast
    have hdiv : m / b = n / b := by
      split at hfront <;> split at hfront
      · rename_i hm hn
        rw [Nat.div_eq_of_lt hm, Nat.div_eq_of_lt hn]
      · exact absurd hfront.symm Nat.toDigits_ne_nil
      · exact absurd hfront Nat.toDigits_ne_nil
      · exact ih (m / b) (Nat.div_lt_self (by omega) hb) hfront
    rw [← Nat.div_add_mod m b, hdiv, hmod, Nat.div_add_mod]

/-- What is no digit does not occur in a number. -/
theorem notMem_toDigits {b : Nat} {c : Char} (hb : 1 < b) (hc : ∀ d, Nat.digitChar d ≠ c)
    (n : Nat) : c ∉ Nat.toDigits b n := by
  induction n using Nat.strongRecOn with
  | _ n ih =>
    rw [toDigits_eq_append hb, List.mem_append, List.mem_singleton]
    rintro (hfront | rfl)
    · split at hfront
      · cases hfront
      · exact ih (n / b) (Nat.div_lt_self (by omega) hb) hfront
    · exact hc _ rfl

/-- Two parts are told apart by a character that ends both and occurs in neither. -/
theorem append_cons_inj {divider : Char} {part part' rest rest' : List Char}
    (hpart : divider ∉ part) (hpart' : divider ∉ part')
    (h : part ++ divider :: rest = part' ++ divider :: rest') : part = part' ∧ rest = rest' := by
  have hsplit := congrArg (List.splitOn divider) h
  rw [List.splitOn_append_cons_self_of_not_mem hpart,
    List.splitOn_append_cons_self_of_not_mem hpart'] at hsplit
  obtain rfl := (List.cons.inj hsplit).1
  exact ⟨rfl, (List.cons.inj (List.append_cancel_left h)).2⟩

/-! ## Escaped text -/

/-- A character as it is shown, if a set tells which characters are given by their code point, at the
start of the text or later in it. -/
def escapeCharBy (points : Bool → Char → Bool) (atStart : Bool) (c : Char) : List Char :=
  match shortEscape? c with
  | some letter => ['\\', letter]
  | none => if points atStart c then codePointEscape c else [c]

/-- A text as it is shown, with any such set. -/
def escapeBy (points : Bool → Char → Bool) : List Char → List Char
  | [] => []
  | c :: rest => escapeCharBy points true c ++ rest.flatMap (escapeCharBy points false)

/-- The set that is in use. -/
def givenByPoint (atStart : Bool) (c : Char) : Bool :=
  (atStart && isExtending c) || isUnprintable c

theorem escape_eq_escapeBy (text : List Char) : escape text = escapeBy givenByPoint text := by
  cases text <;> rfl

/-- The ways to show a character. -/
inductive Shown (c : Char) : List Char → Prop where
  | short {letter : Char} (escaped : shortEscape? c = some letter) : Shown c ['\\', letter]
  | codePoint : Shown c (codePointEscape c)
  | plain (bare : shortEscape? c = none) : Shown c [c]

/-- The ways to show a text. -/
def Shows : List Char → List Char → Prop
  | [], shown => shown = []
  | c :: rest, shown => ∃ first later, shown = first ++ later ∧ Shown c first ∧ Shows rest later

theorem shown_escapeCharBy (points : Bool → Char → Bool) (atStart : Bool) (c : Char) :
    Shown c (escapeCharBy points atStart c) := by
  unfold escapeCharBy
  split
  · rename_i letter hletter
    exact .short hletter
  · rename_i hnone
    split
    · exact .codePoint
    · exact .plain hnone

theorem shows_escapeBy (points : Bool → Char → Bool) (text : List Char) :
    Shows text (escapeBy points text) := by
  have hrest : ∀ rest : List Char, Shows rest (rest.flatMap (escapeCharBy points false)) := by
    intro rest
    induction rest with
    | nil => rfl
    | cons c rest ih => exact ⟨_, _, List.flatMap_cons, shown_escapeCharBy points false c, ih⟩
  cases text with
  | nil => rfl
  | cons c rest => exact ⟨_, _, rfl, shown_escapeCharBy points true c, hrest rest⟩

/-- The characters with a short escape, and their letters. -/
def shortEscapes : List (Char × Char) :=
  [('\x00', '0'), ('\t', 't'), ('\r', 'r'), ('\n', 'n'), ('\'', '\''), ('"', '"'), ('\\', '\\')]

theorem shortEscape?_eq_some_iff {c letter : Char} :
    shortEscape? c = some letter ↔ (c, letter) ∈ shortEscapes := by
  simp only [shortEscape?, shortEscapes, List.mem_cons, Prod.mk.injEq, List.not_mem_nil, or_false]
  grind

theorem shortEscape?_inj {c c' letter : Char} (h : shortEscape? c = some letter)
    (h' : shortEscape? c' = some letter) : c = c' := by
  have hall : ∀ p ∈ shortEscapes, ∀ q ∈ shortEscapes, p.2 = q.2 → p.1 = q.1 := by decide
  rw [shortEscape?_eq_some_iff] at h h'
  exact hall _ h _ h' rfl

/-- No letter is the one that begins a code point. -/
theorem shortEscape?_ne_u (c : Char) : shortEscape? c ≠ some 'u' := by
  have hall : ∀ p ∈ shortEscapes, p.2 ≠ 'u' := by decide
  intro h
  exact hall _ (shortEscape?_eq_some_iff.1 h) rfl

theorem codePointEscape_append (c : Char) (rest : List Char) : codePointEscape c ++ rest =
    '\\' :: 'u' :: '\x7b' :: (Nat.toDigits 16 c.toNat ++ '\x7d' :: rest) := by
  simp [codePointEscape]

/-- No way of showing a character begins another. -/
theorem Shown.append_inj {c c' : Char} {shown shown' rest rest' : List Char} (h : Shown c shown)
    (h' : Shown c' shown') (heq : shown ++ rest = shown' ++ rest') : c = c' ∧ rest = rest' := by
  have hbackslash : shortEscape? '\\' ≠ none := by decide
  have hletter := shortEscape?_ne_u
  cases h <;> cases h' <;>
    simp only [codePointEscape_append, List.cons_append, List.nil_append, List.cons.injEq,
      true_and] at heq
  case short.short hescaped _ hescaped' =>
    obtain ⟨rfl, rfl⟩ := heq
    exact ⟨shortEscape?_inj hescaped hescaped', rfl⟩
  case codePoint.codePoint =>
    have hbrace : ∀ n, '\x7d' ∉ Nat.toDigits 16 n :=
      notMem_toDigits (by decide) fun d => Nat.digitChar_ne _ (by decide)
    obtain ⟨hdigits, hrest⟩ := append_cons_inj (hbrace _) (hbrace _) heq
    exact ⟨Char.toNat_inj.1 (toDigits_inj (by decide) (by decide) hdigits), hrest⟩
  case plain.plain => exact heq
  -- The others differ in the first character or in the second.
  all_goals grind

/-- A shown text has one reading. -/
theorem Shows.unique {text text' shown : List Char} (h : Shows text shown)
    (h' : Shows text' shown) : text = text' := by
  have hne : ∀ {c first later}, Shown c first → [] ≠ first ++ later := by
    rintro c first later (_ | _ | _) <;> simp [codePointEscape]
  induction text generalizing text' shown with
  | nil =>
    obtain rfl : shown = [] := h
    cases text' with
    | nil => rfl
    | cons c' rest' =>
      obtain ⟨first, later, heq, hfirst, -⟩ := h'
      exact absurd heq (hne hfirst)
  | cons c rest ih =>
    obtain ⟨first, later, rfl, hfirst, hlater⟩ := h
    cases text' with
    | nil => exact absurd (Eq.symm h') (hne hfirst)
    | cons c' rest' =>
      obtain ⟨first', later', heq, hfirst', hlater'⟩ := h'
      obtain ⟨rfl, rfl⟩ := hfirst.append_inj hfirst' heq
      rw [ih hlater hlater']

/-- A text that fits on one line. -/
def OneLine (text : List Char) : Prop :=
  '\n' ∉ text ∧ '\r' ∉ text

instance (text : List Char) : Decidable (OneLine text) :=
  inferInstanceAs (Decidable (_ ∧ _))

@[simp] theorem oneLine_append {text text' : List Char} :
    OneLine (text ++ text') ↔ OneLine text ∧ OneLine text' := by
  simp only [OneLine, List.mem_append, not_or]
  exact and_and_and_comm

theorem oneLine_toDigits {b : Nat} (hb : 1 < b) (n : Nat) : OneLine (Nat.toDigits b n) :=
  ⟨notMem_toDigits hb (fun d => Nat.digitChar_ne _ (by decide)) n,
    notMem_toDigits hb (fun d => Nat.digitChar_ne _ (by decide)) n⟩

theorem Shown.oneLine {c : Char} {shown : List Char} (h : Shown c shown) : OneLine shown := by
  cases h with
  | @short letter hescaped =>
    have hall : ∀ p ∈ shortEscapes, p.2 ≠ '\n' ∧ p.2 ≠ '\r' := by decide
    have hletter := hall _ (shortEscape?_eq_some_iff.1 hescaped)
    simp [OneLine, hletter.1.symm, hletter.2.symm]
  | codePoint =>
    rw [codePointEscape, oneLine_append, oneLine_append]
    exact ⟨⟨by decide, oneLine_toDigits (by decide) _⟩, by decide⟩
  | plain hbare =>
    constructor <;>
    · rw [List.mem_singleton]
      rintro rfl
      cases hbare

theorem Shows.oneLine {text shown : List Char} (h : Shows text shown) : OneLine shown := by
  induction text generalizing shown with
  | nil =>
    obtain rfl : shown = [] := h
    simp [OneLine]
  | cons c rest ih =>
    obtain ⟨first, later, rfl, hfirst, hlater⟩ := h
    exact oneLine_append.2 ⟨hfirst.oneLine, ih hlater⟩

end Text

/-- A name belongs to one kind only. -/
theorem Kind.name_inj {k k' : Kind} (h : k.name = k'.name) : k = k' := by
  have hfind : ∀ k : Kind, all.find? (·.name == k.name) = some k := by
    intro k
    cases k <;> decide
  have hsome := hfind k
  rw [h, hfind k'] at hsome
  exact (Option.some.inj hsome).symm

namespace Command

open Text

/-! ## Lines -/

/-- The line of a token, with any set of characters that are given by their code point. -/
def showTokenBy (points : Bool → Char → Bool) (t : Token) : String :=
  showPosition t.position ++ " " ++ t.kind.name ++ " \"" ++
    String.ofList (escapeBy points (Utf8.decode t.text)) ++ "\""

theorem showToken_eq_showTokenBy (t : Token) : showToken t = showTokenBy givenByPoint t := by
  rw [showToken, showTokenBy, shownText, escape_eq_escapeBy]

/-- The parts of a line, and what divides them. -/
theorem toList_showTokenBy (points : Bool → Char → Bool) (t : Token) :
    (showTokenBy points t).toList = Nat.toDigits 10 t.position.line ++ ':' ::
      (Nat.toDigits 10 t.position.column ++ ' ' ::
        ((t.kind.name.toList ++ [' ']) ++ '"' :: (escapeBy points (Utf8.decode t.text) ++ ['"']))) := by
  simp [showTokenBy, showPosition]

theorem showTokenBy_eq_iff (points : Bool → Char → Bool) (t t' : Token) :
    showTokenBy points t = showTokenBy points t' ↔
      t.position.line = t'.position.line ∧ t.position.column = t'.position.column ∧
        t.kind = t'.kind ∧ Utf8.decode t.text = Utf8.decode t'.text := by
  constructor
  · intro h
    have hdigits : ∀ c : Char, (∀ d, Nat.digitChar d ≠ c) → ∀ n, c ∉ Nat.toDigits 10 n :=
      fun c hc => notMem_toDigits (by decide) hc
    have hcolon := hdigits ':' fun d => Nat.digitChar_ne _ (by decide)
    have hblank := hdigits ' ' fun d => Nat.digitChar_ne _ (by decide)
    have hquote : ∀ k : Kind, '"' ∉ k.name.toList ++ [' '] := by
      intro k
      cases k <;> decide
    have hparts := congrArg String.toList h
    rw [toList_showTokenBy, toList_showTokenBy] at hparts
    -- Each part is cut off at its divider, from the left.
    obtain ⟨hline, hparts⟩ := append_cons_inj (hcolon _) (hcolon _) hparts
    obtain ⟨hcolumn, hparts⟩ := append_cons_inj (hblank _) (hblank _) hparts
    obtain ⟨hname, hparts⟩ := append_cons_inj (hquote _) (hquote _) hparts
    have hnumber : ∀ {m n}, Nat.toDigits 10 m = Nat.toDigits 10 n → m = n :=
      toDigits_inj (by decide) (by decide)
    have hkind : t.kind.name = t'.kind.name :=
      String.toList_inj.1 (List.append_cancel_right hname)
    have hshown := shows_escapeBy points (Utf8.decode t.text)
    rw [List.append_cancel_right hparts] at hshown
    exact ⟨hnumber hline, hnumber hcolumn, Kind.name_inj hkind,
      hshown.unique (shows_escapeBy points _)⟩
  · rintro ⟨hline, hcolumn, hkind, htext⟩
    rw [showTokenBy, showTokenBy, showPosition, showPosition, hline, hcolumn, hkind, htext]

-- The bytes themselves cannot be read back: those that are no text are shown alike.
example : showToken ⟨.quoted, [0xFE], Position.start⟩ =
    showToken ⟨.quoted, [0xFF], Position.start⟩ := by decide +kernel

@[simp] theorem oneLine_toString (n : Nat) : OneLine (toString n).toList := by
  rw [Nat.toString_eq_ofList_toDigits, String.toList_ofList]
  exact oneLine_toDigits (by decide) n

theorem oneLine_showTokenBy (points : Bool → Char → Bool) (t : Token) :
    OneLine (showTokenBy points t).toList := by
  have hname : OneLine t.kind.name.toList := by cases t.kind <;> decide
  have htext := (shows_escapeBy points (Utf8.decode t.text)).oneLine
  simp only [showTokenBy, showPosition, String.toList_append, String.toList_ofList, oneLine_append,
    oneLine_toString, hname, htext]
  decide

/-- The lines of a text. -/
def linesOf (text : String) : List (List Char) :=
  text.toList.splitOn '\n'

theorem linesOf_of_oneLine {text : String} (h : OneLine text.toList) :
    linesOf text = [text.toList] :=
  List.splitOn_eq_singleton h.1

/-- Each line is ended, so the text of a list of lines has an empty line at its end. -/
theorem linesOf_unlines (lines : List String) :
    linesOf (unlines lines) = lines.flatMap linesOf ++ [[]] := by
  induction lines with
  | nil => rfl
  | cons line later ih =>
    have htext : (unlines (line :: later)).toList =
        line.toList ++ '\n' :: (unlines later).toList := by
      simp [unlines]
    rw [linesOf, htext, List.splitOn_append_cons_self, List.flatMap_cons, List.append_assoc, ← ih]
    rfl

/-- The line that counts the tokens. -/
def countLine (tokens : List Token) : List Char :=
  (toString tokens.length ++ " tokens, " ++
    toString (tokens.filter (·.kind.isFault)).length ++ " errors").toList

theorem oneLine_countLine (tokens : List Token) : OneLine (countLine tokens) := by
  simp only [countLine, String.toList_append, oneLine_append, oneLine_toString]
  decide

/-- The lines of a report: what stands above the tokens, one line for each token, and the count. -/
theorem linesOf_report (heading : List String) (path : String) (tokens : List Token) :
    linesOf (unlines (report heading path tokens).output) =
      (heading ++ ["Tokens for '" ++ path ++ "':"]).flatMap linesOf ++
        tokens.map (fun t => ("  " ++ showToken t).toList) ++ [countLine tokens, []] := by
  have hline : ∀ t, linesOf ("  " ++ showToken t) = [("  " ++ showToken t).toList] := by
    intro t
    apply linesOf_of_oneLine
    rw [String.toList_append, showToken_eq_showTokenBy, oneLine_append]
    exact ⟨by decide, oneLine_showTokenBy _ t⟩
  have htokens : (tokens.map fun t => "  " ++ showToken t).flatMap linesOf =
      tokens.map fun t => ("  " ++ showToken t).toList := by
    simp only [List.flatMap_map, hline]
    exact List.map_eq_flatMap.symm
  have hcount : linesOf (toString tokens.length ++ " tokens, " ++
      toString (tokens.filter (·.kind.isFault)).length ++ " errors") = [countLine tokens] :=
    linesOf_of_oneLine (oneLine_countLine tokens)
  rw [linesOf_unlines]
  simp only [report, List.flatMap_append, htokens, List.flatMap_cons, List.flatMap_nil, hcount,
    List.append_assoc, List.append_nil, List.cons_append, List.nil_append]

/-- The tokens that the lex command finds in a file, and what it says about the file before. -/
inductive Finds (files : FileSystem) (path : String) (options : Options) :
    List String → List Token → Prop where
  /-- The file has been read as a whole. -/
  | memory {bytes : List UInt8} (chosen : options.memory = true)
      (read : (files path >>= Stream.readAll) = .ok bytes) :
      Finds files path options [] ((Lexer.ofSettings options.settings).openMemory bytes).drain.1
  /-- The file is scanned as it is read. -/
  | stream {bom : Bom} {lexer : Lexer} (chosen : options.memory = false)
      (opened : (Lexer.ofSettings options.settings).openPath files path = (.ok bom, lexer)) :
      Finds files path options (markLines bom) lexer.drain.1

/-- What is found is reported, and if nothing can be found nothing is printed. -/
theorem lexFile_cases (files : FileSystem) (path : String) (options : Options) :
    (∃ heading tokens, Finds files path options heading tokens ∧
      lexFile files path options = report heading path tokens) ∨
    (∀ heading tokens, ¬ Finds files path options heading tokens) ∧
      (lexFile files path options).output = [] := by
  simp only [lexFile]
  cases hmemory : options.memory with
  | true =>
    cases hread : files path >>= Stream.readAll with
    | ok bytes => exact .inl ⟨_, _, .memory hmemory hread, rfl⟩
    | error cause =>
      refine .inr ⟨fun heading tokens hfinds => ?_, rfl⟩
      cases hfinds <;> simp_all
  | false =>
    rcases hopen : (Lexer.ofSettings options.settings).openPath files path with ⟨_ | bom, lexer⟩
    · refine .inr ⟨fun heading tokens hfinds => ?_, rfl⟩
      cases hfinds <;> simp_all
    · exact .inl ⟨_, _, .stream hmemory hopen, rfl⟩

/-- The lex command prints one line for each token that it finds: they stand in order below the lines
that name the mark and the file, and above the count. Without a file to look at it prints nothing. -/
def OneLineEach (files : FileSystem) (path : String) (options : Options) : Prop :=
  (∃ heading tokens, Finds files path options heading tokens ∧
    linesOf (unlines (lexFile files path options).output) =
      (heading ++ ["Tokens for '" ++ path ++ "':"]).flatMap linesOf ++
        tokens.map (fun t => ("  " ++ showToken t).toList) ++ [countLine tokens, []]) ∨
  (∀ heading tokens, ¬ Finds files path options heading tokens) ∧
    unlines (lexFile files path options).output = ""

/-- What the lines of tokens tell, if a set says which characters are given by their code point. -/
structure LinesTell (points : Bool → Char → Bool) : Prop where
  /-- Tokens have the same line if and only if they have the same position, kind and text for
  display. -/
  readBack : ∀ t t', showTokenBy points t = showTokenBy points t' ↔
    t.position.line = t'.position.line ∧ t.position.column = t'.position.column ∧
      t.kind = t'.kind ∧ Utf8.decode t.text = Utf8.decode t'.text
  /-- No line is broken. -/
  oneLine : ∀ t, '\n' ∉ (showTokenBy points t).toList ∧ '\r' ∉ (showTokenBy points t).toList

/-- Lines tell their tokens apart, with the set in use and with any other, and the lex command prints
one for each token. -/
theorem tokenLines_tell :
    (∀ points, LinesTell points) ∧ (∀ t, showToken t = showTokenBy givenByPoint t) ∧
      ∀ files path options, OneLineEach files path options := by
  refine ⟨fun points => ⟨showTokenBy_eq_iff points, oneLine_showTokenBy points⟩,
    showToken_eq_showTokenBy, fun files path options => ?_⟩
  obtain ⟨heading, tokens, hfinds, hreport⟩ | ⟨hnone, houtput⟩ := lexFile_cases files path options
  · refine .inl ⟨heading, tokens, hfinds, ?_⟩
    rw [hreport]
    exact linesOf_report heading path tokens
  · refine .inr ⟨hnone, ?_⟩
    rw [houtput]
    rfl

end Command

end Listfile
