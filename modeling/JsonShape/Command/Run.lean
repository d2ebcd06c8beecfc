import JsonShape.Command.Options
import JsonShape.Files.Glob
import JsonShape.Input.Call
import JsonShape.Input.Doc
import JsonShape.Registry.Compile
import JsonShape.Registry.Inputs
import JsonShape.Registry.Read

/-!
# Running commands

A command reads its files, in any monad that has some, and answers what it prints. A failure is a
sentence; where one failure explains another, colons stand between them.

* `Command.runCompile`, `Command.runValidate` and `Command.runParams` are the commands.
* `Command.run` reads a command line and runs it.
-/

namespace JsonShape

namespace Command

/-- What a command leaves behind: the exit code, and what it prints to either stream. -/
structure Result where
  status : Nat
  stdout : String
  stderr : String
  deriving DecidableEq

/-- The exit code of a command line that is refused. -/
def usageStatus : Nat := 2

/-- Computations that may fail with a sentence. -/
abbrev Attempt (m : Type → Type) := ExceptT String m

variable {m : Type → Type} [Monad m] [Regex.Engine]

/-- The result, or the failure in the words of `text`. -/
def lift {ε α : Type} (text : ε → String) (r : Except ε α) : Attempt m α :=
  ExceptT.mk (pure (r.mapError text))

/-! ## Files -/

/-- The registry in a file. -/
def loadRegistry (files : Files m) (path : String) : Attempt m Registry := do
  let bytes ← lift (fun e => "failed to read " ++ path ++ ": " ++ e.text ++ ": " ++ e.text)
    (← files.read path)
  lift (fun f => path ++ ": " ++ f.fullSentence) (Registry.ofBytes bytes)

/-- Whether a path is a pattern. -/
def hasWildcards (path : String) : Bool :=
  path.any fun c => c = '*' || c = '?' || c = '[' || c = '\x7b'

/-- The paths that an argument stands for. -/
def resolveInput (files : Files m) (argument : String) : Attempt m (List String) := do
  let context := "failed to resolve input file paths: "
  if hasWildcards argument then
    let matched ← ExceptT.lift (Glob.paths files argument)
    let paths ← lift (fun e => context ++ e.message) matched
    if paths.isEmpty then throw (context ++ "glob pattern matched no files: " ++ argument)
    else pure paths
  else pure [argument]

/-- The text of a file. -/
def readSource (files : Files m) (path : String) : Attempt m String := do
  let context (e : FileError) := "failed to read source file " ++ path ++ ": " ++ e.text
  let bytes ← lift context (← files.read path)
  match String.fromUTF8? ⟨bytes.toArray⟩ with
  | some text => pure text
  | none => throw (context .notText)

/-! ## Documents -/

/-- A value and where it comes from. -/
structure Document where
  label : String
  value : Json

/-- What is wrong with a text that is no JSON, and where. -/
def faultText (f : Json.Fault) : String :=
  f.cause.message ++ " at line " ++ Number.intText f.position.line ++ " column " ++
    Number.intText f.position.column

/-- The lines of a text, without their ends. -/
def lines (text : String) : List String :=
  let parts := text.splitOn "\n"
  let parts := if parts.getLast? = some "" then parts.dropLast else parts
  let ended := if text.endsWith "\n" then parts.length else parts.length - 1
  parts.zipIdx.map fun p =>
    if p.1.endsWith "\r" ∧ p.2 < ended then String.ofList p.1.toList.dropLast else p.1

/-- Whether a line holds nothing but white space. -/
def isBlankLine (line : String) : Bool := line.toList.all Unicode.isWhiteSpace

/-- The number of a line of a file. -/
def lineLabel (path : String) (line : Nat) : String := path ++ ":" ++ Number.intText line

/-- The documents of a file that has one on each line. Blank lines count as lines. -/
def lineDocuments (path text : String) : Except String (List Document) :=
  ((lines text).zipIdx.filter fun l => !isBlankLine l.1).mapM fun l =>
    let label := lineLabel path (l.2 + 1)
    match Json.parse l.1 with
    | .ok value => .ok ⟨label, value⟩
    | .error f => .error ("failed to parse JSON (" ++ label ++ "): " ++ faultText f)

/-- The document of a file that has one. -/
def fileDocument (path text : String) : Except String Document :=
  match Json.parse text with
  | .ok value => .ok ⟨path, value⟩
  | .error f => .error ("failed to parse JSON source file (" ++ path ++ "): " ++ faultText f)

/-- The documents of all inputs, in order. -/
def loadDocuments (files : Files m) (inputs : List String) (linewise : Bool) :
    Attempt m (List Document) := do
  let paths ← inputs.mapM (resolveInput files)
  let documents ← paths.flatten.mapM fun path => do
    let text ← readSource files path
    if linewise then lift id (lineDocuments path text)
    else lift id ((fileDocument path text).map fun d => [d])
  pure documents.flatten

/-! ## What is printed -/

/-- A colour of a terminal. -/
inductive Colour
  | red
  | green
  | yellow

/-- What switches a colour on. -/
def Colour.code : Colour → String
  | red => "\x1b[31m"
  | green => "\x1b[32m"
  | yellow => "\x1b[33m"

/-- What switches colours off. -/
def colourEnd : String := "\x1b[0m"

/-- A text in a colour, if there are any. A text that switches colours off is continued. -/
def paint (colours : Bool) (colour : Colour) (text : String) : String :=
  if colours then
    colour.code ++ (colourEnd ++ colour.code).intercalate (text.splitOn colourEnd) ++ colourEnd
  else text

/-- The lines about one document. -/
def verdictLines (colours : Bool) (label : String) : Checked → List String
  | .ok _ => [paint colours .green "✓" ++ " " ++ label]
  | .error report =>
    (paint colours .red "✗" ++ " " ++ label) ::
      report.pathHash.map fun e =>
        "    " ++ paint colours .yellow e.1 ++ " " ++ ", ".intercalate e.2

/-- Lines as they are printed. -/
def printed (lines : List String) : String := String.join (lines.map (· ++ "\n"))

/-! ## Commands -/

/-- Writes the components of some types, or of all, to a file or to be printed. -/
def runCompile (files : Files m) (types : String) (roots : List String) (out : Option String) :
    Attempt m Result := do
  let registry ← loadRegistry files types
  let roots := if roots.isEmpty then registry.names else roots
  let compiler ← lift DefinitionError.message (roots.foldlM (Compiler.addType registry) .new)
  let text := (Components.document compiler.schemas).pretty
  match out with
  | none => pure ⟨0, printed [text], ""⟩
  | some path =>
    let parent := FilePath.parent path
    if !parent.isEmpty then lift FileError.text (← files.makeDirectories parent)
    lift (fun e => "failed to write " ++ path ++ ": " ++ e.text) (← files.write path text)
    pure ⟨0, "", ""⟩

/-- The inputs of a registry and the one of a type. -/
def inputOf (registry : Registry) (type : String) :
    Except DefinitionError (Dict Input × Input) := do
  let inputs ← registry.inputs
  let input ← Registry.requireInput inputs type
  .ok (inputs, input)

/-- Checks documents against a type. A document whose check does not end counts as neither. -/
def runValidate (files : Files m) (colours : Bool) (types type : String) (inputs : List String)
    (linewise : Bool) : Attempt m Result := do
  let registry ← loadRegistry files types
  let (table, input) ← lift DefinitionError.message (inputOf registry type)
  let documents ← loadDocuments files inputs linewise
  let results := documents.filterMap fun d => (input.call table d.value).map fun r => (d.label, r)
  let failed := results.any fun r => match r.2 with
    | .ok _ => false
    | .error _ => true
  let text := printed (results.flatMap fun r => verdictLines colours r.1 r.2)
  pure ⟨if failed then 1 else 0, text, ""⟩

/-- Writes the parameters of a type. -/
def runParams (files : Files m) (types type : String) (location : Location) : Attempt m Result := do
  let registry ← loadRegistry files types
  let (table, input) ← lift DefinitionError.message (inputOf registry type)
  let parameters ← lift ParameterError.message
    (Input.parameters table (input.doc table) location)
  pure ⟨0, printed [(Json.array (parameters.map Parameter.toJson)).pretty], ""⟩

/-- Runs a command. -/
def execute (files : Files m) (colours : Bool) : Command → Attempt m Result
  | .compile types roots out => runCompile files types roots out
  | .validate types type inputs linewise => runValidate files colours types type inputs linewise
  | .params types type location => runParams files types type location

/-- Reads a command line and runs it. A refused command line prints nothing here. -/
def run (files : Files m) (colours : Bool) (args : List String) : m Result := do
  match parse args with
  | none => pure ⟨usageStatus, "", ""⟩
  | some command =>
    match ← (execute files colours command).run with
    | .ok result => pure result
    | .error text => pure ⟨1, "", printed ["error: " ++ text]⟩

end Command

end JsonShape
