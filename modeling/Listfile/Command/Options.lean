import Listfile.Settings

/-!
# Options of the lex command

Arguments after the file name choose the settings and how the file is read. They are taken from
left to right; the first that is not understood is reported, and of several chunk sizes the last
one counts.
-/

namespace Listfile

namespace Command

/-- The choices of one lex command. -/
structure Options where
  /-- The settings of the lexer. -/
  settings : Settings
  /-- Whether the file is read as a whole before scanning. -/
  memory : Bool
deriving DecidableEq, Repr

instance : Inhabited Options := ⟨⟨Settings.default, false⟩⟩

/-- An argument that is not understood. -/
inductive OptionError where
  /-- The value of a chunk size is not a number, or too large. -/
  | invalidChunkSize (value : String)
  /-- No option is written like this. -/
  | unknownOption (argument : String)
deriving DecidableEq, Repr

/-- The text shown for an argument that is not understood. -/
def OptionError.message : OptionError → String
  | invalidChunkSize value => "invalid chunk size '" ++ value ++ "'"
  | unknownOption argument => "unknown option '" ++ argument ++ "'"

/-- Sizes are kept in 64 bits. -/
def sizeLimit : Nat := 0x10000000000000000

/-- The value of a row of decimal digits. -/
def digitsValue (digits : List Char) : Nat :=
  digits.foldl (fun value c => value * 10 + (c.toNat - '0'.toNat)) 0

/-- The digits of a number, after one plus sign if there is one. -/
def unsigned : List Char → List Char
  | '+' :: digits => digits
  | digits => digits

/-- A size: an optional plus sign and at least one decimal digit, with a value below the limit. -/
def parseSize? (value : List Char) : Option Nat :=
  let digits := unsigned value
  if digits.isEmpty || !digits.all Char.isDigit || sizeLimit ≤ digitsValue digits then none
  else some (digitsValue digits)

/-- How a chunk size is given. -/
def chunkSizeFlag : List Char := "--chunk-size=".toList

/-- The options with one more argument taken into account. -/
def Options.apply (options : Options) (argument : String) : Except OptionError Options :=
  if argument = "--emit-space" then
    .ok { options with settings := options.settings.withEmitSpace true }
  else if argument = "--memory" then .ok { options with memory := true }
  else if chunkSizeFlag.isPrefixOf argument.toList then
    let value := argument.toList.drop chunkSizeFlag.length
    match parseSize? value with
    | some size => .ok { options with settings := options.settings.withChunkSize size }
    | none => .error (.invalidChunkSize (String.ofList value))
  else .error (.unknownOption argument)

/-- The options that a list of arguments gives. -/
def Options.parse (arguments : List String) : Except OptionError Options :=
  arguments.foldlM Options.apply default

end Command

end Listfile
