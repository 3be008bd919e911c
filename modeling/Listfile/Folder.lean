import Listfile.Lexer

/-!
# Folders

A folder with files and directories in it, and how a path is followed from there. Names and paths
are followed alike, name by name (`Location.enter`): a dot stays, two dots go up, and any other
name goes down. Each name of a path but the last has to lead to a directory, and if the path ends
in a slash, the last one has to as well.

The folders above this one exist, and so does the root; they hold nothing but what is listed.
-/

namespace Listfile

/-! ## Locations -/

/-- Where a path sets out from. -/
inductive Base where
  /-- The folder the given number of levels above, the folder itself for zero. -/
  | above (levels : Nat)
  /-- The root of all folders. -/
  | root
deriving DecidableEq, Repr

/-- A place below some base, whether anything is there or not. -/
structure Location where
  /-- The base. -/
  base : Base
  /-- The names that lead down from it. -/
  names : List String
deriving DecidableEq, Repr

namespace Location

/-- The folder one level above. The root is its own. -/
def parent (l : Location) : Location :=
  match l.names, l.base with
  | [], .above levels => ⟨.above (levels + 1), []⟩
  | [], .root => l
  | names, base => ⟨base, names.dropLast⟩

/-- Where a name leads from here. -/
def enter (l : Location) (name : String) : Location :=
  if name = "." then l
  else if name = ".." then l.parent
  else { l with names := l.names ++ [name] }

/-- Where the names lead from here, one after the other, with every location passed on the way. -/
def trail (l : Location) : List String → List Location
  | [] => [l]
  | name :: rest => l :: (l.enter name).trail rest

end Location

namespace Path

/-- The names in a path. -/
def names (path : String) : List String :=
  (path.splitOn "/").filter (· ≠ "")

/-- Where a path sets out from: from the root if it starts with a slash, and from the folder if not.
-/
def start (path : String) : Location :=
  ⟨if path.startsWith "/" then .root else .above 0, []⟩

/-- The location that a path names. -/
def target (path : String) : Location :=
  (names path).foldl Location.enter (start path)

/-- The locations that a path passes, with the one that it names. -/
def passed (path : String) : List Location :=
  (start path).trail (names path)

/-- The locations that a path passes before the one that it names. -/
def passedBefore (path : String) : List Location :=
  (start path).trail (names path).dropLast

end Path

/-! ## Folders -/

/-- The files and directories of a folder, by their paths from it. The directories that such a path
passes exist too. -/
structure Folder where
  /-- The files and their contents. Of two at one location, the later one counts. -/
  files : List (String × List UInt8)
  /-- The directories. -/
  directories : List String
deriving DecidableEq, Repr

namespace Folder

/-- The greatest number of bytes of one name in a path. -/
def nameLimit : Nat := 255

/-- The number of bytes from which on a path is too long. -/
def pathLimit : Nat := 4096

/-- What a path leads to. -/
inductive Place where
  /-- The directory at a location. -/
  | directory (location : Location)
  /-- A file. -/
  | file (bytes : List UInt8)
deriving DecidableEq, Repr

/-- The file at a location. -/
def fileAt? (f : Folder) (l : Location) : Option (List UInt8) :=
  (f.files.reverse.find? fun file => Path.target file.1 == l).map (·.2)

/-- Whether there is a directory at a location. -/
def hasDirectory (f : Folder) (l : Location) : Bool :=
  l.names.isEmpty || f.directories.any (fun d => (Path.passed d).contains l) ||
    f.files.any fun file => (Path.passedBefore file.1).contains l

/-- Follow one name. -/
def follow (f : Folder) (place : Place) (name : String) : Except FileError Place :=
  match place with
  | .file _ => .error .notADirectory
  | .directory l =>
    if nameLimit < name.utf8ByteSize then .error .nameTooLong
    else
      match f.fileAt? (l.enter name) with
      | some bytes => .ok (.file bytes)
      | none =>
        if f.hasDirectory (l.enter name) then .ok (.directory (l.enter name))
        else .error .notFound

/-- Follow a path. -/
def find (f : Folder) (path : String) : Except FileError Place :=
  if path.contains '\x00' then .error .nulInPath
  else if path.isEmpty then .error .notFound
  else if pathLimit ≤ path.utf8ByteSize then .error .nameTooLong
  else do
    let place ← (Path.names path).foldlM f.follow (.directory (Path.start path))
    match place with
    | .file bytes => if path.endsWith "/" then .error .notADirectory else .ok (.file bytes)
    | .directory l => .ok (.directory l)

/-- Open the file at a path. A directory can be opened as well, but not read. -/
def toFileSystem (f : Folder) : FileSystem := fun path => do
  match ← f.find path with
  | .file bytes => return Stream.ofBytes bytes
  | .directory _ => return Stream.unreadable .isADirectory

end Folder

end Listfile
