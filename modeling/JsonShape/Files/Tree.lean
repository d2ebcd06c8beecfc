import JsonShape.Files.Basic

/-!
# Files in memory

A file tree holds directories and files by the names that lead to them from the current directory,
which is the only one that is known: everything outside it is absent.

* `FileTree.ofList` makes a tree of files and the directories they stand in.
* `FileTree.operations` are the operations on it.
-/

namespace JsonShape

/-- The files and directories below the current directory. -/
structure FileTree where
  files : List (List String × String)
  directories : List (List String)

namespace FileTree

/-- What a path leads to. -/
inductive Place
  | directory (names : List String)
  | file (names : List String) (text : String)
  /-- Nothing, in a directory that is there. -/
  | vacant (names : List String)
  /-- A directory outside the current one. -/
  | outside

/-- Whether a directory is there. -/
def hasDirectory (t : FileTree) (names : List String) : Bool :=
  names.isEmpty || t.directories.contains names

/-- What stands under some names, in a directory that is there. -/
def placeOf (t : FileTree) (names : List String) : Place :=
  if t.hasDirectory names then .directory names
  else
    match t.files.lookup names with
    | some text => .file names text
    | none => .vacant names

/-- Follows the components of a path from a place. -/
def follow (t : FileTree) : Place → List String → Except FileError Place
  | place, [] => .ok place
  | place, c :: rest =>
    match place with
    | .directory names =>
      if c.isEmpty ∨ c = "." then follow t place rest
      else if c = ".." then
        follow t (if names.isEmpty then .outside else .directory names.dropLast) rest
      else follow t (t.placeOf (names ++ [c])) rest
    | .outside =>
      if c.isEmpty ∨ c = "." ∨ c = ".." then follow t .outside rest else .error .notFound
    | .file _ _ => .error .notDirectory
    | .vacant names =>
      if (c :: rest).all String.isEmpty then .ok (.vacant (names ++ [""])) else .error .notFound

/-- What a path leads to. -/
def locate (t : FileTree) (path : String) : Except FileError Place :=
  if path.isEmpty then .error .notFound
  else if path.startsWith "/" then t.follow .outside (FilePath.components path)
  else t.follow (.directory []) (FilePath.components path)

/-- Writes a file under some names. -/
def put (t : FileTree) (names : List String) (text : String) : FileTree :=
  { t with files := (names, text) :: t.files.filter fun e => e.1 ≠ names }

/-- Adds a directory. -/
def addDirectory (t : FileTree) (names : List String) : FileTree :=
  if t.hasDirectory names then t else { t with directories := names :: t.directories }

/-- Makes the directories along a path, from a directory that is there. -/
def makeAlong (t : FileTree) : (names : List String) → List String → Except FileError FileTree
  | _, [] => .ok t
  | names, c :: rest =>
    if c.isEmpty ∨ c = "." then makeAlong t names rest
    else if c = ".." then
      if names.isEmpty then .error .permissionDenied else makeAlong t names.dropLast rest
    else
      match t.placeOf (names ++ [c]) with
      | .file _ _ =>
        .error (if rest.all String.isEmpty then .alreadyExists else .notDirectory)
      | _ => makeAlong (t.addDirectory (names ++ [c])) (names ++ [c]) rest

/-- The names in a directory. -/
def namesIn (t : FileTree) (names : List String) : List String :=
  let below (path : List String) : Option String :=
    if path.dropLast = names then path.getLast? else none
  t.directories.filterMap below ++ (t.files.map Prod.fst).filterMap below

/-- A tree of files with the directories they stand in. -/
def ofList (entries : List (String × String)) : FileTree :=
  entries.foldl (fun t e =>
    let names := (FilePath.components e.1).filter fun c => !(c.isEmpty || c == ".")
    let t := match t.makeAlong [] names.dropLast with
      | .ok t => t
      | .error _ => t
    t.put names e.2) ⟨[], []⟩

/-- The text of a file, if there is one. -/
def text? (t : FileTree) (path : String) : Option String :=
  match t.locate path with
  | .ok (.file _ text) => some text
  | _ => none

/-- The operations on a tree. -/
def operations : Files (StateM FileTree) where
  read path := do
    let t ← get
    pure (match t.locate path with
      | .ok (.file _ text) => .ok text.toUTF8.toList
      | .ok (.vacant _) => .error .notFound
      | .ok _ => .error .isDirectory
      | .error e => .error e)
  write path text := do
    let t ← get
    match t.locate path with
    | .ok (.file names _) => do
      set (t.put names text)
      pure (.ok ())
    | .ok (.vacant names) =>
      if names.getLast? = some "" then pure (.error .isDirectory)
      else do
        set (t.put names text)
        pure (.ok ())
    | .ok _ => pure (.error .isDirectory)
    | .error e => pure (.error e)
  makeDirectories path := do
    let t ← get
    match t.makeAlong [] (FilePath.components path) with
    | .ok t => do
      set t
      pure (.ok ())
    | .error e => pure (.error e)
  kind? path := do
    let t ← get
    pure (match t.locate path with
      | .ok (.file _ _) => some .file
      | .ok (.vacant _) => none
      | .ok _ => some .directory
      | .error _ => none)
  names path := do
    let t ← get
    pure (match t.locate path with
      | .ok (.directory names) => .ok (t.namesIn names)
      | .ok .outside => .ok []
      | .ok _ => .error .notDirectory
      | .error e => .error e)

end FileTree

end JsonShape
