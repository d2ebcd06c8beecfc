import JsonShape.Command.Run
import JsonShape.Regex.Pattern

/-!
# The program

Runs the command line over the files of the computer, with the engine `Regex.Engine.standard`.
-/

namespace JsonShape

/-- Why the system refused an operation. -/
def FileError.ofError : IO.Error → FileError
  | .noFileOrDirectory .. => .notFound
  | .alreadyExists .. => .alreadyExists
  | .inappropriateType _ 20 _ => .notDirectory
  | .inappropriateType .. => .isDirectory
  | .permissionDenied .. => .permissionDenied
  | e => .other (toString e)

/-- Runs an operation of the system. -/
def attempt {α : Type} (act : IO α) : IO (Except FileError α) := do
  match ← act.toBaseIO with
  | .ok a => pure (.ok a)
  | .error e => pure (.error (.ofError e))

/-- The files of the computer. -/
def systemFiles : Files IO where
  read path := attempt do
    let bytes ← IO.FS.readBinFile path
    pure bytes.toList
  write path text := attempt (IO.FS.writeFile path text)
  makeDirectories path := attempt (IO.FS.createDirAll path)
  kind? path := do
    match ← attempt (IO.FS.realPath path) with
    | .error _ => pure none
    | .ok real => pure (some (if ← real.isDir then .directory else .file))
  names path := attempt do
    let real ← IO.FS.realPath path
    let entries ← real.readDir
    pure (entries.toList.map fun e => e.fileName)

end JsonShape

open JsonShape in
/-- Runs the program with these arguments. -/
def main (args : List String) : IO UInt32 := do
  let _ : Regex.Engine := .standard
  let forced ← IO.getEnv "CLICOLOR_FORCE"
  let result ← Command.run systemFiles (forced.any (· ≠ "0")) args
  IO.print result.stdout
  IO.eprint result.stderr
  pure (UInt32.ofNat result.status)
