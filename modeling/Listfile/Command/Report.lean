import Listfile.Command.Options
import Listfile.Lexer
import Listfile.Text.Escape
import Listfile.Text.Utf8

/-!
# Reports

The lex command reports the tokens of a file, one line each, and counts them. Faults are also
reported as errors, and the command fails if there are any or if the file cannot be had.
-/

namespace Listfile

namespace Command

/-- What a command leaves behind. -/
structure Outcome where
  /-- The exit status, zero for success. -/
  status : Nat
  /-- The lines of the standard output. -/
  output : List String
  /-- The lines of the standard error. -/
  errors : List String
deriving DecidableEq, Repr

/-- The text of a list of lines. -/
def unlines (lines : List String) : String :=
  String.join (lines.map (· ++ "\n"))

/-- A line and a column as they are shown. -/
def showPosition (p : Position) : String :=
  toString p.line ++ ":" ++ toString p.column

/-- The text of a token for display. -/
def shownText (t : Token) : String :=
  String.ofList (Text.escape (Text.Utf8.decode t.text))

/-- A token as it is shown: its position, the name of its kind, and its text in quotes. -/
def showToken (t : Token) : String :=
  showPosition t.position ++ " " ++ t.kind.name ++ " \"" ++ shownText t ++ "\""

/-- The line that reports a fault. -/
def faultLine (t : Token) : String :=
  "error: " ++ t.kind.name ++ " at " ++ showPosition t.position

/-- The report on the tokens of a file, after the given heading. -/
def report (heading : List String) (path : String) (tokens : List Token) : Outcome :=
  let faults := tokens.filter (·.kind.isFault)
  { status := if faults.isEmpty then 0 else 1
    output := heading ++ ["Tokens for '" ++ path ++ "':"] ++
      tokens.map (fun t => "  " ++ showToken t) ++
      [toString tokens.length ++ " tokens, " ++ toString faults.length ++ " errors"]
    errors := faults.map faultLine }

/-- A command that fails with one error line. -/
def failure (message : String) : Outcome :=
  ⟨1, [], ["error: " ++ message]⟩

/-- The line that names a byte-order mark, if there is one. -/
def markLines (bom : Bom) : List String :=
  if bom = .absent then [] else ["Byte-order mark: " ++ bom.name]

/-- Lex the file at a path and report its tokens. -/
def lexFile (files : FileSystem) (path : String) (options : Options) : Outcome :=
  let lexer := Lexer.ofSettings options.settings
  if options.memory then
    match files path >>= Stream.readAll with
    | .ok bytes => report [] path (lexer.openMemory bytes).drain.1
    | .error cause => failure ("cannot read '" ++ path ++ "': " ++ cause.message)
  else
    match lexer.openPath files path with
    | (.ok bom, lexer) => report (markLines bom) path lexer.drain.1
    | (.error e, _) => failure e.message

end Command

end Listfile
