/-!
# File errors

The ways in which the system refuses to open or read a file, and the text it gives for each.
-/

namespace Listfile

/-- Why a file cannot be opened or read. -/
inductive FileError where
  /-- Nothing has the given name. -/
  | notFound
  /-- The path leads through something that is not a directory. -/
  | notADirectory
  /-- A directory has no bytes to read. -/
  | isADirectory
  /-- A name in the path is too long, or the path as a whole. -/
  | nameTooLong
  /-- The path contains a NUL byte. -/
  | nulInPath
  /-- Any other cause, by the number and the text that the system has for it. -/
  | other (code : Nat) (text : String)
deriving DecidableEq, Repr

namespace FileError

/-- The system's text and its number for the error. -/
def numbered (text : String) (code : Nat) : String :=
  text ++ " (os error " ++ toString code ++ ")"

/-- The text shown for the error. -/
def message : FileError → String
  | notFound => numbered "No such file or directory" 2
  | notADirectory => numbered "Not a directory" 20
  | isADirectory => numbered "Is a directory" 21
  | nameTooLong => numbered "File name too long" 36
  | nulInPath => "file name contained an unexpected NUL byte"
  | other code text => numbered text code

end FileError

end Listfile
