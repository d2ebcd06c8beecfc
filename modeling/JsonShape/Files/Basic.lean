/-!
# Files

What a program needs of the files around it, in any monad: the files of a computer, or a tree that
is kept in memory.

* `FileError` lists why an operation fails, `FileError.text` is the wording.
* `Files` are the operations.
* `FilePath` functions put paths together and take them apart.
-/

namespace JsonShape

/-- Why an operation on files fails. -/
inductive FileError
  | notFound
  | alreadyExists
  | notDirectory
  | isDirectory
  | permissionDenied
  /-- The content is no text. -/
  | notText
  | other (text : String)
  deriving DecidableEq

/-- The wording of a file error. -/
def FileError.text : FileError → String
  | notFound => "No such file or directory (os error 2)"
  | permissionDenied => "Permission denied (os error 13)"
  | alreadyExists => "File exists (os error 17)"
  | notDirectory => "Not a directory (os error 20)"
  | isDirectory => "Is a directory (os error 21)"
  | notText => "stream did not contain valid UTF-8"
  | other text => text

/-- What stands at a path. -/
inductive FileKind
  | file
  | directory
  deriving DecidableEq

/-- Operations on files, by their paths. -/
structure Files (m : Type → Type) where
  /-- The bytes of a file. -/
  read : String → m (Except FileError (List UInt8))
  /-- Writes a file. -/
  write : (path text : String) → m (Except FileError Unit)
  /-- Makes a directory and those it stands in, unless they are there. -/
  makeDirectories : String → m (Except FileError Unit)
  kind? : String → m (Option FileKind)
  /-- The names in a directory. -/
  names : String → m (Except FileError (List String))

namespace FilePath

/-- The names between the slashes of a path. -/
def components (path : String) : List String := path.splitOn "/"

/-- A name, or a longer path, behind a directory. -/
def join (directory name : String) : String :=
  if name.startsWith "/" then name
  else if directory.isEmpty ∨ directory.endsWith "/" then directory ++ name
  else directory ++ "/" ++ name

/-- Whether a component stands for nothing: between two slashes, or a point behind another
component. -/
def isIdle (isFirst : Bool) (component : String) : Bool :=
  component.isEmpty || (component == "." && !isFirst)

/-- The components of a path, last one in front, without idle ones. -/
def significant : (isFirst : Bool) → List String → List String → List String
  | _, [], found => found
  | isFirst, c :: rest, found =>
    significant false rest (if isIdle isFirst c then found else c :: found)

/-- The path of the directory in which the last component stands; empty for a single one. -/
def parent (path : String) : String :=
  let root := if path.startsWith "/" then "/" else ""
  root ++ "/".intercalate ((significant true (components path) []).drop 1).reverse

/-- Whether a path is the current directory. -/
def isCurrent (path : String) : Bool := significant true (components path) [] == ["."]

end FilePath

end JsonShape
