import Listfile.Command

/-!
# The program

Reads the file that the arguments name, runs the command on it, and writes out what the command
leaves behind. Everything that is decided is decided by `Command.run`.
-/

namespace Listfile

/-- The number of an error, which may have been handed down with its sign turned. -/
def errorNumber (code : UInt32) : Nat :=
  if code < 0x80000000 then code.toNat else (0 - code).toNat

/-- The number and the text that the system has for an error. -/
def systemError : IO.Error → Nat × String
  | .noFileOrDirectory _ code text => (errorNumber code, text)
  | .inappropriateType _ code text => (errorNumber code, text)
  | .permissionDenied _ code text => (errorNumber code, text)
  | .invalidArgument _ code text => (errorNumber code, text)
  | .resourceExhausted _ code text => (errorNumber code, text)
  | .hardwareFault code text => (errorNumber code, text)
  | .otherError code text => (errorNumber code, text)
  | e => (5, toString e)

/-- What opening a file gives, where reading it has failed. A directory opens but cannot be read. -/
def openFailure (e : IO.Error) : Except FileError Stream :=
  match systemError e with
  | (2, _) => .error .notFound
  | (20, _) => .error .notADirectory
  | (21, _) => .ok (Stream.unreadable .isADirectory)
  | (36, _) => .error .nameTooLong
  | (code, text) => .error (.other code text)

/-- Open the file at a path. -/
def openFile (path : String) : IO (Except FileError Stream) := do
  if path.contains '\x00' then
    return .error .nulInPath
  try
    let bytes ← IO.FS.readBinFile path
    return .ok (Stream.ofBytes bytes.toList)
  catch e =>
    return openFailure e

/-- The files that a command can open: the one that its arguments name, if they name one. -/
def filesFor : List String → IO FileSystem
  | _ :: path :: _ => do
    let file ← openFile path
    return fun _ => file
  | _ => return fun _ => .error .notFound

end Listfile

/-- Run the program with the given arguments. -/
def main (args : List String) : IO UInt32 := do
  let outcome := Listfile.Command.run (← Listfile.filesFor args) args
  (← IO.getStdout).putStr (Listfile.Command.unlines outcome.output)
  (← IO.getStderr).putStr (Listfile.Command.unlines outcome.errors)
  return outcome.status.toUInt32
