import Listfile.Command.Report

/-!
# Commands

The first argument names the command: `lex` reports the tokens of a file, `kinds` lists the token
kinds, and `help` and `version` speak for themselves. Without a command the usage is shown. `run`
is the whole program, given the files that its arguments may name.
-/

namespace Listfile

namespace Command

/-- The version of the program. -/
def version : String := "0.1.0"

/-- How the program is used. -/
def usage : List String :=
  ["Listfile lexer",
    "",
    "Usage: lst <command> [options]",
    "",
    "Commands:",
    "  lex <file>           Tokenize a listfile and print its tokens",
    "  kinds                List token kind names",
    "  help                 Show this help message",
    "  version              Show version information",
    "",
    "Lex options:",
    "  --emit-space         Emit blank runs as space tokens",
    "  --chunk-size=<n>     Bytes read per fill (minimum 16)",
    "  --memory             Read the whole file before scanning",
    "",
    "Set RUST_LOG (e.g. RUST_LOG=lst_lexer=trace) for scanner logs."]

/-- How the lex command is used. -/
def lexUsage : List String :=
  ["Usage: lst lex <file> [options]",
    "",
    "Options:",
    "  --emit-space        Emit blank runs as space tokens",
    "  --chunk-size=<n>    Bytes read per fill (minimum 16)",
    "  --memory            Read the whole file before scanning"]

/-- A number with blanks before it, three places wide. -/
def threePlaces (n : Nat) : String :=
  let digits := toString n
  String.ofList (List.replicate (3 - digits.length) ' ') ++ digits

/-- The line that lists a kind. -/
def kindLine (k : Kind) : String :=
  threePlaces k.code ++ "  " ++ k.label ++ "  (" ++ k.name ++ ")"

/-- The lex command with its own arguments. The options are checked before the file is opened. -/
def lex (files : FileSystem) : List String → Outcome
  | [] => ⟨1, [], lexUsage⟩
  | path :: arguments =>
    match Options.parse arguments with
    | .ok options => lexFile files path options
    | .error e => failure e.message

/-- The whole program: its arguments to its outcome. -/
def run (files : FileSystem) : List String → Outcome
  | [] => ⟨0, usage, []⟩
  | command :: arguments =>
    if command = "lex" then lex files arguments
    else if command = "kinds" then ⟨0, Kind.all.map kindLine, []⟩
    else if command = "help" ∨ command = "--help" ∨ command = "-h" then ⟨0, usage, []⟩
    else if command = "version" ∨ command = "--version" ∨ command = "-V" then
      ⟨0, ["lst " ++ version], []⟩
    else ⟨1, usage, ["Unknown command: " ++ command, ""]⟩

end Command

end Listfile
