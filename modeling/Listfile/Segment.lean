import Listfile.Token

/-!
# Segments

Every listfile is cut, from left to right and without gaps, into segments: blank runs, line
comments, newlines, parentheses, bare words, quoted and bracketed stretches, and stray bytes that
start nothing. Which segment comes first depends on the bytes ahead alone (`Segment.first`), so
`segments` needs no state. Each segment remembers enough to be written back (`Segment.spelling`)
and the text that its token carries (`Segment.text`).

Three scans find where a segment ends: `wordLength` for bare words, `quotedLength?` for the closing
quote, and `indexOf?` for the closing bracket.
-/

namespace Listfile

/-! ## Where segments end -/

/-- The length of the bare word at the front: bare bytes, and backslashes each with the byte after
it, which may be any byte but a newline. -/
def wordLength : List UInt8 → Nat
  | [] => 0
  | b :: rest =>
    if b = Byte.backslash then
      match rest with
      | [] => 0
      | c :: rest => if c = Byte.newline then 0 else wordLength rest + 2
    else if Byte.isBare b then wordLength rest + 1
    else 0

/-- The number of bytes before the closing quote, if there is one. A backslash takes the byte after
it along, so a quote after a backslash does not close. -/
def quotedLength? : List UInt8 → Option Nat
  | [] => none
  | b :: rest =>
    if b = Byte.quote then some 0
    else if b = Byte.backslash then
      match rest with
      | [] => none
      | _ :: rest => (quotedLength? rest).map (· + 2)
    else (quotedLength? rest).map (· + 1)

/-- The text inside quotes without its line continuations, that is, without each backslash before a
newline and that newline. Every other backslash stays with the byte after it. -/
def withoutContinuations : List UInt8 → List UInt8
  | [] => []
  | b :: rest =>
    if b = Byte.backslash then
      match rest with
      | [] => [b]
      | c :: rest =>
        if c = Byte.newline then withoutContinuations rest
        else b :: c :: withoutContinuations rest
    else b :: withoutContinuations rest

/-- The delimiter that opens a bracket of the given level: that many equals signs between two
opening brackets. -/
def opener (level : Nat) : List UInt8 :=
  Byte.bracketLeft :: (List.replicate level Byte.equals ++ [Byte.bracketLeft])

/-- The delimiter that closes a bracket of the given level. -/
def closer (level : Nat) : List UInt8 :=
  Byte.bracketRight :: (List.replicate level Byte.equals ++ [Byte.bracketRight])

/-- The level of the opener at the front, if one stands there. -/
def openerLevel? : List UInt8 → Option Nat
  | [] => none
  | b :: rest =>
    let level := (rest.takeWhile (· == Byte.equals)).length
    if b = Byte.bracketLeft ∧ (rest.drop level).head? = some Byte.bracketLeft then some level
    else none

/-- The index of the first occurrence of a pattern. -/
def indexOf? (pattern : List UInt8) : List UInt8 → Option Nat
  | [] => if pattern.isEmpty then some 0 else none
  | b :: rest =>
    if pattern.isPrefixOf (b :: rest) then some 0 else (indexOf? pattern rest).map (· + 1)

/-! ## The segments -/

/-- A stretch of a listfile. -/
inductive Segment where
  /-- A run of spaces and tabs. -/
  | blank (run : List UInt8)
  /-- A hash with the rest of its line, and whether a newline ends that line. The newline belongs to
  the comment. -/
  | lineComment (body : List UInt8) (ended : Bool)
  /-- A newline outside comments, quotes and brackets. -/
  | newline
  /-- An opening parenthesis. -/
  | parenLeft
  /-- A closing parenthesis. -/
  | parenRight
  /-- A bare word. -/
  | word (bytes : List UInt8)
  /-- A quote, the bytes after it, and whether a closing quote follows. -/
  | quoted (body : List UInt8) (closed : Bool)
  /-- A bracket of some level, after a hash if it is a comment, its body as written, and whether its
  closer follows. -/
  | bracket (comment : Bool) (level : Nat) (body : List UInt8) (closed : Bool)
  /-- A byte that starts no other segment. -/
  | stray (byte : UInt8)
deriving DecidableEq, Repr

namespace Segment

/-- The bytes of the input that a segment stands for. -/
def spelling : Segment → List UInt8
  | blank run => run
  | lineComment body ended => Byte.hash :: (body ++ if ended then [Byte.newline] else [])
  | newline => [Byte.newline]
  | parenLeft => [Byte.parenLeft]
  | parenRight => [Byte.parenRight]
  | word bytes => bytes
  | quoted body closed => Byte.quote :: (body ++ if closed then [Byte.quote] else [])
  | bracket comment level body closed =>
    (if comment then [Byte.hash] else []) ++ opener level ++ body ++
      if closed then closer level else []
  | stray byte => [byte]

/-- The text that the segment's token carries. -/
def text : Segment → List UInt8
  | blank run => run
  | lineComment _ _ => []
  | newline => [Byte.newline]
  | parenLeft => [Byte.parenLeft]
  | parenRight => [Byte.parenRight]
  | word bytes => bytes
  | quoted body _ => withoutContinuations body
  | bracket _ _ body _ => body
  | stray byte => [byte]

/-- The kind of the segment's token, given the number of open parentheses. A line comment has no
token. -/
def kind? (depth : Nat) : Segment → Option Kind
  | blank _ => some .space
  | lineComment _ _ => none
  | newline => some .newline
  | parenLeft => some .parenLeft
  | parenRight => some .parenRight
  | word bytes => some (.ofWord depth bytes)
  | quoted _ closed => some (if closed then .quoted else .badString)
  | bracket comment _ _ closed =>
    some (if closed then if comment then .bracketComment else .bracket else .badBracket)
  | stray _ => some .badCharacter

/-- The line comment whose hash has been read. -/
def lineCommentOf (rest : List UInt8) : Segment :=
  let body := rest.takeWhile (· != Byte.newline)
  lineComment body (body.length < rest.length)

/-- The quoted stretch whose opening quote has been read. -/
def quotedOf (rest : List UInt8) : Segment :=
  match quotedLength? rest with
  | some n => quoted (rest.take n) true
  | none => quoted rest false

/-- The bracket whose opener has been read: it ends at the first closer of its own level. -/
def bracketOf (comment : Bool) (level : Nat) (rest : List UInt8) : Segment :=
  match indexOf? (closer level) rest with
  | some n => bracket comment level (rest.take n) true
  | none => bracket comment level rest false

/-- The bare word at the front. -/
def wordOf (input : List UInt8) : Segment :=
  word (input.take (wordLength input))

/-- The first segment of an input that is not empty. -/
def first (b : UInt8) (rest : List UInt8) : Segment :=
  if Byte.isBlank b then blank ((b :: rest).takeWhile Byte.isBlank)
  else if b = Byte.newline then newline
  else if b = Byte.parenLeft then parenLeft
  else if b = Byte.parenRight then parenRight
  else if b = Byte.hash then
    match openerLevel? rest with
    | some level => bracketOf true level (rest.drop (level + 2))
    | none => lineCommentOf rest
  else if b = Byte.quote then quotedOf rest
  else
    match openerLevel? (b :: rest) with
    | some level => bracketOf false level (rest.drop (level + 1))
    | none => if wordLength (b :: rest) = 0 then stray b else wordOf (b :: rest)

end Segment

/-- The segments of an input, in order. Each takes at least one byte. -/
def segments : List UInt8 → List Segment
  | [] => []
  | b :: rest =>
    let s := Segment.first b rest
    s :: segments (rest.drop (s.spelling.length - 1))
termination_by input => input.length
decreasing_by
  simp only [List.length_drop, List.length_cons]
  omega

end Listfile
