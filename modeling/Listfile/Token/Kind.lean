/-!
# Token kinds

The thirteen kinds, their order, the short labels by which they are listed and the names by which
diagnostics speak of them.
-/

namespace Listfile

/-- What a token is. -/
inductive Kind where
  /-- The end of the input; carries no text. -/
  | nothing
  /-- A run of spaces and tabs, if the settings ask for these. -/
  | space
  /-- One newline. -/
  | newline
  /-- A bare word that can name a command, outside all parentheses. -/
  | identifier
  /-- An opening parenthesis. -/
  | parenLeft
  /-- A closing parenthesis. -/
  | parenRight
  /-- Any other bare word. -/
  | unquoted
  /-- An argument between double quotes, which are not part of the text. -/
  | quoted
  /-- An argument between long brackets, which are not part of the text. -/
  | bracket
  /-- A comment between long brackets, which are not part of the text. -/
  | bracketComment
  /-- A byte that starts no token. -/
  | badCharacter
  /-- A bracket still open at the end of the input. -/
  | badBracket
  /-- A quoted argument still open at the end of the input. -/
  | badString
deriving DecidableEq, Repr, Inhabited

namespace Kind

/-- Every kind, in the order of the codes. -/
def all : List Kind :=
  [nothing, space, newline, identifier, parenLeft, parenRight, unquoted, quoted, bracket,
    bracketComment, badCharacter, badBracket, badString]

/-- The number under which other tools store a kind. -/
def code : Kind → Nat
  | nothing => 0
  | space => 1
  | newline => 2
  | identifier => 3
  | parenLeft => 4
  | parenRight => 5
  | unquoted => 6
  | quoted => 7
  | bracket => 8
  | bracketComment => 9
  | badCharacter => 10
  | badBracket => 11
  | badString => 12

/-- The one-word label under which a kind is listed. -/
def label : Kind → String
  | nothing => "None"
  | space => "Space"
  | newline => "Newline"
  | identifier => "Identifier"
  | parenLeft => "ParenLeft"
  | parenRight => "ParenRight"
  | unquoted => "ArgumentUnquoted"
  | quoted => "ArgumentQuoted"
  | bracket => "ArgumentBracket"
  | bracketComment => "CommentBracket"
  | badCharacter => "BadCharacter"
  | badBracket => "BadBracket"
  | badString => "BadString"

/-- The name used in reports and diagnostics. -/
def name : Kind → String
  | nothing => "nothing"
  | space => "space"
  | newline => "newline"
  | identifier => "identifier"
  | parenLeft => "left paren"
  | parenRight => "right paren"
  | unquoted => "unquoted argument"
  | quoted => "quoted argument"
  | bracket => "bracket argument"
  | bracketComment => "bracket comment"
  | badCharacter => "bad character"
  | badBracket => "unterminated bracket"
  | badString => "unterminated string"

/-- The kinds that report a fault in the input. -/
def isFault : Kind → Bool
  | badCharacter | badBracket | badString => true
  | _ => false

/-- The kinds that can be arguments of a command. -/
def isArgument : Kind → Bool
  | unquoted | quoted | bracket => true
  | _ => false

/-- The kind with a given label. -/
def ofLabel? (text : String) : Option Kind :=
  all.find? (·.label == text)

/-- Every kind is listed at the index that is its code. -/
theorem getElem?_all_code (k : Kind) : all[k.code]? = some k := by
  cases k <;> rfl

/-- A label belongs to one kind only. -/
theorem ofLabel?_label (k : Kind) : ofLabel? k.label = some k := by
  cases k <;> decide

end Kind

end Listfile
