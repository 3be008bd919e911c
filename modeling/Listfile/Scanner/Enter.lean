import Listfile.Scanner.Bracket
import Listfile.Scanner.Gap
import Listfile.Scanner.Word

/-!
# What the next bytes lead to

Between tokens the next byte decides what is read. Most tokens are read to their end at once, and so
are blanks. A line comment, a quoted argument and a bracket are only begun: `enter` consumes their
opening bytes and says how reading goes on (`Entry`).

Unless nothing is left, entering takes bytes (`enter_after`).
-/

namespace Listfile.Scanner

variable {σ : Type}

/-! ## Tokens of one byte, and words -/

/-- The next byte is a token of its own. -/
def single (kind : Kind) (s : Scanner σ) (d : Draft) :
    Except Violation (Scanner σ × Draft) := do
  let (byte, s') ← s.take 1
  return ({ s'.right 1 with depth := kind.depthAfter s.depth },
    ((d.start s.position).set byte).finish kind)

/-- A newline is a token of its own, and the next line begins behind it. -/
def lineEnd (s : Scanner σ) (d : Draft) : Except Violation (Scanner σ × Draft) := do
  let (s, d) ← single .newline s d
  return (s.nextLine, d)

/-- A bare word from its first byte on. -/
def bareWord [Source σ] (s : Scanner σ) (d : Draft) : Except Violation (Scanner σ × Draft) :=
  word s (d.start s.position)

/-- The token that starts with the given byte, which is the next one and opens nothing. -/
def tokenAt [Source σ] (byte : UInt8) (s : Scanner σ) (d : Draft) :
    Except Violation (Scanner σ × Draft) :=
  if byte = Byte.newline then lineEnd s d
  else if byte = Byte.parenLeft then single .parenLeft s d
  else if byte = Byte.parenRight then single .parenRight s d
  else if byte = Byte.backslash then
    let (escaped, s) := s.peek 1
    if isEscapable escaped then bareWord s d else single .badCharacter s d
  else if Byte.isBare byte then bareWord s d
  else single .badCharacter s d

/-! ## Entries -/

/-- What the next bytes lead to. -/
inductive Entry (σ : Type) where
  /-- The draft holds a finished token. -/
  | token (s : Scanner σ) (d : Draft)
  /-- Blanks have been passed over. -/
  | passed (s : Scanner σ) (d : Draft)
  /-- The rest of the line is a comment. -/
  | lineComment (s : Scanner σ) (d : Draft)
  /-- A quoted argument has been opened. -/
  | quoted (s : Scanner σ) (d : Draft)
  /-- A bracket of the given level has been opened; closed, it is a token of the given kind. -/
  | bracket (level : Nat) (kind : Kind) (s : Scanner σ) (d : Draft)

/-- A blank run, which is a token or is passed over. -/
def blank [Source σ] (s : Scanner σ) (d : Draft) : Except Violation (Entry σ) := do
  let (s', d) ← blanks s (d.start s.position)
  return if s.emitSpace then .token s' (d.finish .space) else .passed s' d

/-- A comment from its hash on: a bracket comment if an opener follows, and otherwise a line
comment, which the bytes of an opener that is not complete belong to. -/
def comment [Source σ] (s : Scanner σ) (d : Draft) : Except Violation (Entry σ) := do
  let d := d.start s.position
  let (_, s) ← s.take 1
  let (next, s) := (s.right 1).peek 0
  if next = some Byte.bracketLeft then
    let (level, s, d) ← openBracket s d
    match level with
    | some n => return .bracket n .bracketComment s d
    | none => return .lineComment s d
  else
    return .lineComment s d

/-- A bracket argument, or the bare word that starts with the same bytes. -/
def bracketArgument [Source σ] (s : Scanner σ) (d : Draft) : Except Violation (Entry σ) := do
  let (level, s, d) ← openBracket s (d.start s.position)
  match level with
  | some n => return .bracket n .bracket s d
  | none =>
    let (s, d) ← word s d
    return .token s d

/-- A quoted argument from its opening quote on. -/
def quotedArgument (s : Scanner σ) (d : Draft) : Except Violation (Entry σ) := do
  let d := d.start s.position
  let (_, s) ← s.take 1
  return .quoted (s.right 1) d

/-- What the next bytes lead to, from between two tokens. -/
def enter [Source σ] (s : Scanner σ) (d : Draft) : Except Violation (Entry σ) :=
  let (next, s) := s.peek 0
  match next with
  | none => .ok (.token s ((d.start s.position).finish .nothing))
  | some byte =>
    if Byte.isBlank byte then blank s d
    else if byte = Byte.hash then comment s d
    else if byte = Byte.bracketLeft then bracketArgument s d
    else if byte = Byte.quote then quotedArgument s d
    else do
      let (s, d) ← tokenAt byte s d
      return .token s d

/-! ## Progress -/

/-- The scanner of an entry. -/
def Entry.scanner : Entry σ → Scanner σ
  | token s _ | passed s _ | lineComment s _ | quoted s _ | bracket _ _ s _ => s

theorem single_after [Source σ] {kind : Kind} {s s' : Scanner σ} {d d' : Draft}
    (h : single kind s d = .ok (s', d')) : s'.window.After s.window := by
  simp only [single, bind_eq_ok, Prod.exists] at h
  obtain ⟨_, s₁, htake, h⟩ := h
  have after : s₁.window.After s.window := take_after Nat.one_pos htake
  cases h
  exact after

theorem lineEnd_after [Source σ] {s s' : Scanner σ} {d d' : Draft}
    (h : lineEnd s d = .ok (s', d')) : s'.window.After s.window := by
  simp only [lineEnd, bind_eq_ok, Prod.exists] at h
  obtain ⟨s₁, d₁, hsingle, h⟩ := h
  have after := single_after hsingle
  cases h
  exact after

theorem tokenAt_after [Source σ] {byte : UInt8} {s s' : Scanner σ} {d d' : Draft}
    (hhead : s.window.unread.head? = some byte) (h : tokenAt byte s d = .ok (s', d')) :
    s'.window.After s.window := by
  simp only [tokenAt] at h
  split at h
  · exact lineEnd_after h
  split at h
  · exact single_after h
  split at h
  · exact single_after h
  split at h
  · rename_i hback
    have ahead := s.peek_reached 1
    split at h
    · rename_i hpair
      rw [hback] at hhead
      exact (word_after_of_isEscapable (peek_head hhead 1) hpair h).trans_reached ahead
    · exact (single_after h).trans_reached ahead
  split at h
  · rename_i hbare
    exact word_after_of_isBare hhead hbare h
  · exact single_after h

theorem blank_after [Source σ] {s : Scanner σ} {d : Draft} {e : Entry σ} {b : UInt8}
    (hhead : s.window.unread.head? = some b) (hblank : Byte.isBlank b = true)
    (h : blank s d = .ok e) : e.scanner.window.After s.window := by
  simp only [blank, bind_eq_ok, Prod.exists] at h
  obtain ⟨s₁, d₁, hblanks, h⟩ := h
  have after := blanks_after hhead hblank hblanks
  split at h <;> cases h <;> exact after

theorem comment_after [Source σ] {s : Scanner σ} {d : Draft} {e : Entry σ}
    (h : comment s d = .ok e) : e.scanner.window.After s.window := by
  simp only [comment, bind_eq_ok, Prod.exists] at h
  obtain ⟨_, s₁, htake, h⟩ := h
  have first := take_after Nat.one_pos htake
  have start := ((s₁.right 1).peek_reached 0).trans_after first
  split at h
  · simp only [bind_eq_ok, Prod.exists] at h
    obtain ⟨level, s₂, d₂, hopen, h⟩ := h
    have opened := (openBracket_after hopen).trans_reached start.reached
    split at h <;> cases h <;> exact opened
  · cases h
    exact start

theorem bracketArgument_after [Source σ] {s : Scanner σ} {d : Draft} {e : Entry σ}
    (h : bracketArgument s d = .ok e) : e.scanner.window.After s.window := by
  simp only [bracketArgument, bind_eq_ok, Prod.exists] at h
  obtain ⟨level, s₁, d₁, hopen, h⟩ := h
  have opened := openBracket_after hopen
  split at h
  · cases h
    exact opened
  · simp only [bind_eq_ok, Prod.exists] at h
    obtain ⟨s₂, d₂, hword, h⟩ := h
    cases h
    exact (word_reached hword).trans_after opened

theorem quotedArgument_after [Source σ] {s : Scanner σ} {d : Draft} {e : Entry σ}
    (h : quotedArgument s d = .ok e) : e.scanner.window.After s.window := by
  simp only [quotedArgument, bind_eq_ok, Prod.exists] at h
  obtain ⟨_, s₁, htake, h⟩ := h
  have after := take_after Nat.one_pos htake
  cases h
  exact after

/-- Entering takes bytes, or it finds the end of the input. -/
theorem enter_after [Source σ] {s : Scanner σ} {d : Draft} {e : Entry σ}
    (h : enter s d = .ok e) :
    e.scanner.window.After s.window ∨
      ∃ s' d', e = .token s' d' ∧ d'.kind = .nothing ∧ s'.window.Reached s.window := by
  have ahead := s.peek_reached 0
  have hhead := s.peek_zero_fst
  simp only [enter] at h
  split at h
  · cases h
    exact .inr ⟨_, _, rfl, rfl, ahead⟩
  rename_i byte hbyte
  rw [hbyte] at hhead
  left
  split at h
  · rename_i hblank
    exact (blank_after hhead.symm hblank h).trans_reached ahead
  split at h
  · exact (comment_after h).trans_reached ahead
  split at h
  · exact (bracketArgument_after h).trans_reached ahead
  split at h
  · exact (quotedArgument_after h).trans_reached ahead
  · simp only [bind_eq_ok, Prod.exists] at h
    obtain ⟨s₁, d₁, htoken, h⟩ := h
    cases h
    exact (tokenAt_after hhead.symm htoken).trans_reached ahead

end Listfile.Scanner
