import Listfile.Bom.Sniff
import Listfile.Scanner.Next
import Listfile.Source.Feed

/-!
# Lexers

A lexer is a scanner that can be pointed at one input after another. Binding it to an input,
closing it, or failing to open a file ends the session before; a session shares nothing with those
before it but the settings.

Within a session tokens are read one at a time until the input ends, and from then on there are
none.
-/

namespace Listfile

/-! ## Sessions -/

/-- The reading of one input. -/
structure Session where
  /-- The scanner on the input. -/
  scanner : Scanner Feed
  /-- The token read last, the end of the input included. -/
  draft : Draft
  /-- The byte-order mark, if the input is a stream. -/
  bom : Option Bom
  /-- Whether the end of the input has been read. -/
  finished : Bool

namespace Session

/-- A session in which nothing has been read. -/
def ofFeed (settings : Settings) (feed : Feed) (bom : Option Bom) : Session :=
  ⟨Scanner.ofSource settings feed, Draft.empty, bom, false⟩

/-- The next token, unless the input has ended. -/
def next (s : Session) : Option Token × Session :=
  if s.finished then (none, s)
  else
    let r := s.scanner.next s.draft
    if r.2.kind = .nothing then (none, { s with scanner := r.1, draft := r.2, finished := true })
    else (some r.2.token, { s with scanner := r.1, draft := r.2 })

theorem next_after {s s' : Session} {t : Token} (h : s.next = (some t, s')) :
    s'.scanner.window.After s.scanner.window := by
  simp only [next] at h
  split at h
  · simp at h
  · split at h
    · simp at h
    · rename_i hkind
      obtain ⟨-, rfl⟩ := Prod.mk.inj h
      exact Scanner.next_after hkind

/-- All tokens up to the end of the input. -/
def drain (s : Session) : List Token × Session :=
  match h : s.next with
  | (none, s') => ([], s')
  | (some t, s') =>
    have : s'.scanner.window.After s.scanner.window := next_after h
    let more := drain s'
    (t :: more.1, more.2)
termination_by s.scanner.window

end Session

/-! ## Opening files -/

/-- What opening the file at a path gives: a stream, or the cause why it cannot be opened. -/
abbrev FileSystem := String → Except FileError Stream

/-- A file that cannot be opened. -/
structure OpenError where
  /-- The path as given. -/
  path : String
  /-- The cause. -/
  cause : FileError
deriving DecidableEq, Repr

/-- The text shown for a file that cannot be opened. -/
def OpenError.message (e : OpenError) : String :=
  "cannot open '" ++ e.path ++ "': " ++ e.cause.message

/-! ## Lexers -/

/-- A lexer, bound to an input or not. -/
structure Lexer where
  /-- The settings of every session. -/
  settings : Settings
  /-- The session, if an input is bound. -/
  session : Option Session

namespace Lexer

/-- A lexer that is bound to nothing. -/
def ofSettings (settings : Settings) : Lexer := ⟨settings, none⟩

instance : Inhabited Lexer := ⟨ofSettings Settings.default⟩

/-- End the session. -/
def close (l : Lexer) : Lexer := { l with session := none }

/-- Bind bytes in memory, which are read as they are. -/
def openMemory (l : Lexer) (bytes : List UInt8) : Lexer :=
  { l with session := some (Session.ofFeed l.settings (.memory ⟨bytes⟩) none) }

/-- Bind a stream. Its byte-order mark is skipped and given. -/
def openStream (l : Lexer) (stream : Stream) : Bom × Lexer :=
  let (bom, stream) := Bom.sniff stream
  let feed := Feed.stream (Normalized.ofStream stream l.settings.windowSize)
  (bom, { l with session := some (Session.ofFeed l.settings feed (some bom)) })

/-- Bind the file at a path. If it cannot be opened, the lexer is bound to nothing. -/
def openPath (l : Lexer) (files : FileSystem) (path : String) : Except OpenError Bom × Lexer :=
  match files path with
  | .ok stream =>
    let (bom, l) := l.openStream stream
    (.ok bom, l)
  | .error cause => (.error ⟨path, cause⟩, l.close)

/-- Whether an input is bound. -/
def isBound (l : Lexer) : Bool := l.session.isSome

/-- The byte-order mark of the stream that is bound. -/
def bom (l : Lexer) : Option Bom := l.session.bind Session.bom

/-- The position of the token read last, the end of the input included. -/
def position (l : Lexer) : Position :=
  match l.session with
  | some s => s.draft.position
  | none => Position.start

/-- The next token, if an input is bound and has not ended. -/
def next (l : Lexer) : Option Token × Lexer :=
  match l.session with
  | some s =>
    let r := s.next
    (r.1, { l with session := some r.2 })
  | none => (none, l)

/-- The answers to `n` requests for a token. -/
def nextN : Nat → Lexer → List (Option Token) × Lexer
  | 0, l => ([], l)
  | n + 1, l =>
    let r := l.next
    let more := nextN n r.2
    (r.1 :: more.1, more.2)

/-- All tokens up to the end of the input. -/
def drain (l : Lexer) : List Token × Lexer :=
  match l.session with
  | some s =>
    let r := s.drain
    (r.1, { l with session := some r.2 })
  | none => ([], l)

end Lexer

end Listfile
