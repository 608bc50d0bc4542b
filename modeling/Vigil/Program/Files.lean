import Vigil.Store.Place

/-!
# Files

The files that a run of the program can see: texts, or why they cannot be read, and databases by their
paths, and directories in which a database can be made. A path without a slash stands in the directory
of the empty path.
-/

namespace Vigil.Program

/-- Why a file cannot be read. -/
inductive FileError where
  | missing
  | directory
  | notDirectory
  | stated (reason : String)
  deriving DecidableEq, Repr

def FileError.message : FileError → String
  | .missing => "No such file or directory (os error 2)"
  | .directory => "Is a directory (os error 21)"
  | .notDirectory => "Not a directory (os error 20)"
  | .stated reason => reason

/-- Files by their paths. -/
structure Files where
  directories : List String
  texts : List (String × Except FileError String)
  databases : List (String × Tables)

namespace Files

def empty : Files := ⟨[], [], []⟩

/-- The path of a directory without the slash at its end. -/
def trimmed (path : String) : String :=
  match path.toList.reverse with
  | '/' :: rest => String.ofList rest.reverse
  | _ => path

def parent (path : String) : String :=
  String.ofList ((path.toList.reverse.dropWhile (· != '/')).drop 1).reverse

/-- The files with what was found at a path. -/
def add (f : Files) (path : String) : Except FileError String → Files
  | .error .missing => f
  | .error .directory => { f with directories := trimmed path :: f.directories }
  | found => { f with texts := (path, found) :: f.texts }

def isDirectory (f : Files) (path : String) : Bool :=
  path != "" && f.directories.contains (trimmed path)

/-- The path leads through a file as if that were a directory. -/
def crossesFile (f : Files) (path : String) : Bool :=
  f.texts.any fun (name, _) => (name ++ "/").isPrefixOf path

def read (f : Files) (path : String) : Except FileError String :=
  match f.texts.lookup path with
  | some content => content
  | none =>
    .error (if f.isDirectory path then .directory
      else if f.crossesFile path then .notDirectory
      else .missing)

/-- What is found where a database is to be. -/
def place (f : Files) (path : String) : Place :=
  match f.databases.lookup path, f.texts.lookup path with
  | some tables, _ => .tables tables
  | none, some (.ok text) => .file text
  | none, some (.error cause) => .unreadable cause.message
  | none, none =>
    if f.isDirectory path then .directory
    else if f.directories.contains (parent path) then .nothing
    else .noDirectory

end Files

end Vigil.Program
