/-!
# Files

How the program meets the file system: through one function that reads a file.  Everything above
it is stated for any such function in any monad, so that the same code runs over the disk and over
files held in memory.
-/

namespace LivePatch

/-- Why a file was not read. -/
inductive ReadFailure where
  | notFound
  /-- Something that is no directory stands on the way to it. -/
  | notDirectory
  | isDirectory
  /-- It is a file, and cannot be read. -/
  | unreadable (reason : String)
deriving DecidableEq, Repr

namespace ReadFailure

/-- The wording of a failure. -/
def message : ReadFailure → String
  | .notFound => "No such file or directory (os error 2)"
  | .notDirectory => "Not a directory (os error 20)"
  | .isDirectory => "Is a directory (os error 21)"
  | .unreadable reason => reason

/-- Is there a file at all? -/
def isFile : ReadFailure → Bool
  | .unreadable _ => true
  | _ => false

end ReadFailure

/-- A way to read the file at a path. -/
abbrev FileReader (m : Type → Type) := String → m (Except ReadFailure String)

namespace Path

/-- The path of `name` in the directory `dir`. -/
def join (dir name : String) : String :=
  if dir.isEmpty || dir.endsWith "/" then dir ++ name else dir ++ "/" ++ name

/-- The names along a path.  Repeated and final slashes and dots that stand for the same directory
are left out, but for a dot in front. -/
def parts (path : String) : List String :=
  match path.splitOn "/" with
  | [] => []
  | first :: rest => first :: rest.filter fun part => !part.isEmpty && part != "."

/-- The directory that holds `path`; for a bare file name, the current one. -/
def parent (path : String) : String :=
  match (parts path).dropLast with
  | [] => "."
  | [""] => "/"
  | parts => "/".intercalate parts

end Path

end LivePatch
