import JsonShape.Schema.Parameter

/-!
# Command lines

A command line names a command and its options. An option is written `--name value` or
`--name=value`; two of them have a short form, `-i value` or `-ivalue`. A value does not start with
a hyphen unless it is attached.

* `Command` lists the commands, `Command.parse` reads one.
* `Options.read` gathers options, `OptionSpec` says what each of them takes.
-/

namespace JsonShape

/-- What an option takes. -/
inductive Arity
  /-- Nothing. -/
  | flag
  /-- One value, once. -/
  | single
  /-- One value each time. -/
  | repeated
  /-- One or more values each time. -/
  | many
  deriving DecidableEq

/-- An option: its names and what it takes. -/
structure OptionSpec where
  name : String
  short : Option Char
  arity : Arity

/-- The values given to options, in order. -/
abbrev Options := Dict (List String)

namespace Options

/-- Adds values to an option. An option for one value is not given twice. -/
def give (given : Options) (spec : OptionSpec) (values : List String) : Option Options :=
  match given.get? spec.name, spec.arity with
  | some _, .flag | some _, .single => none
  | some earlier, _ => some (given.insert spec.name (earlier ++ values))
  | none, _ => some (given.insert spec.name values)

/-- Whether an argument can be a value that is not attached. -/
def isValue (arg : String) : Bool :=
  match arg.toList with
  | '-' :: _ :: _ => false
  | _ => true

/-- A text cut at its first equals sign. -/
def cutEquals (text : List Char) : String × Option String :=
  let name := text.takeWhile (· ≠ '=')
  match text.drop name.length with
  | '=' :: value => (String.ofList name, some (String.ofList value))
  | _ => (String.ofList name, none)

/-- The option that an argument names, and the value attached to it. -/
def named? (specs : List OptionSpec) (arg : String) : Option (OptionSpec × Option String) :=
  match arg.toList with
  | '-' :: '-' :: text => do
    let (name, value) := cutEquals text
    let spec ← specs.find? fun s => s.name = name
    some (spec, value)
  | '-' :: c :: rest => do
    let spec ← specs.find? fun s => s.short = some c
    let value := match rest with
      | [] => none
      | '=' :: value => some (String.ofList value)
      | value => some (String.ofList value)
    some (spec, value)
  | _ => none

/-- Reads options, with the values that follow the last one in `open_`. -/
def readFrom (specs : List OptionSpec) :
    (given : Options) → (last : Option (OptionSpec × List String)) → List String → Option Options
  | given, last, [] => close given last
  | given, last, arg :: rest =>
    if arg = "--" then if rest.isEmpty then close given last else none
    else
      match last with
      | some (spec, values) =>
        if isValue arg then
          if spec.arity = .many then readFrom specs given (some (spec, values ++ [arg])) rest
          else do
            let given ← give given spec [arg]
            readFrom specs given none rest
        else do
          let given ← close given last
          start given arg rest
      | none => start given arg rest
where
  /-- Ends an option whose values have been read. -/
  close (given : Options) : Option (OptionSpec × List String) → Option Options
    | none => some given
    | some (spec, values) => if values.isEmpty then none else give given spec values
  /-- Begins an option. -/
  start (given : Options) (arg : String) (rest : List String) : Option Options := do
    let (spec, attached) ← named? specs arg
    match spec.arity, attached with
    | .flag, some _ => none
    | .flag, none => do
      let given ← give given spec []
      readFrom specs given none rest
    | _, some value => do
      let given ← give given spec [value]
      readFrom specs given none rest
    | _, none => readFrom specs given (some (spec, [])) rest

/-- Reads options. -/
def read (specs : List OptionSpec) (args : List String) : Option Options :=
  readFrom specs [] none args

/-- The value of an option that has to be given. -/
def required (given : Options) (name : String) : Option String := do
  let values ← given.get? name
  values.head?

/-- The path given by an option, if it is; an empty path is refused. -/
def path? (given : Options) (name : String) : Option (Option String) :=
  match given.get? name with
  | none => some none
  | some values =>
    match values.head? with
    | some value => if value.isEmpty then none else some (some value)
    | none => none

/-- The path of an option that has to be given. -/
def requiredPath (given : Options) (name : String) : Option String := do
  let path ← path? given name
  path

/-- The values of an option. -/
def all (given : Options) (name : String) : List String := (given.get? name).getD []

end Options

/-- What the program is asked to do. -/
inductive Command
  /-- Writes the components of some types, or of all. -/
  | compile (types : String) (roots : List String) (out : Option String)
  /-- Checks documents against a type. -/
  | validate (types type : String) (inputs : List String) (linewise : Bool)
  /-- Writes the parameters of a type. -/
  | params (types type : String) (location : Location)

namespace Command

/-- The file of types. -/
def typesOption : OptionSpec := ⟨"types", none, .single⟩

/-- The type to use. -/
def typeOption : OptionSpec := ⟨"type", none, .single⟩

/-- The place of this name. -/
def location? : String → Option Location
  | "path" => some .path
  | "query" => some .query
  | _ => none

/-- The options of `compile`. -/
def parseCompile (args : List String) : Option Command := do
  let given ← Options.read [typesOption, ⟨"root", none, .repeated⟩, ⟨"out", some 'o', .single⟩] args
  let types ← given.requiredPath "types"
  let out ← given.path? "out"
  some (.compile types (given.all "root") out)

/-- The options of `validate`. -/
def parseValidate (args : List String) : Option Command := do
  let given ← Options.read
    [typesOption, typeOption, ⟨"ndjson", none, .flag⟩, ⟨"input", some 'i', .many⟩] args
  let types ← given.requiredPath "types"
  let type ← given.required "type"
  let inputs ← given.get? "input"
  some (.validate types type inputs (given.contains "ndjson"))

/-- The options of `params`. -/
def parseParams (args : List String) : Option Command := do
  let given ← Options.read [typesOption, typeOption, ⟨"in", none, .single⟩] args
  let types ← given.requiredPath "types"
  let type ← given.required "type"
  let place ← given.required "in"
  let location ← location? place
  some (.params types type location)

/-- Reads a command line. -/
def parse : List String → Option Command
  | "compile" :: args => parseCompile args
  | "validate" :: args => parseValidate args
  | "params" :: args => parseParams args
  | _ => none

end Command

end JsonShape
