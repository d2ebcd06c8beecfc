import JsonShape.Input.Basic
import JsonShape.Name
import JsonShape.TypeDef.Basic

/-!
# Inputs of a registry

Every named type of a registry has an input, documented as a component under its name with points.
Types refer to one another through the table of all inputs.

* `TypeDef.input` is the input of a description.
* `TypeDef.bounds?` is the one interval of all bounds among some rules.
* `Registry.inputs` is the table of the inputs of a registry.
-/

namespace JsonShape

variable [Regex.Engine]

namespace Constraint

/-- Moves the end of an interval that a rule bounds, and says whether there is one. -/
def bound? (interval : Interval) : Constraint → Option Interval
  | minimum x => some { interval with lower := .included x }
  | exclusiveMinimum x => some { interval with lower := .excluded x }
  | maximum x => some { interval with upper := .included x }
  | exclusiveMaximum x => some { interval with upper := .excluded x }
  | pattern _ | multipleOf _ => none

/-- Refines an input by a rule that is no bound. A pattern is read by the engine,
`Regex.compile?`. -/
def refine (input : Input) : Constraint → Except DefinitionError Input
  | pattern text =>
    match Regex.compile? text with
    | some regex => .ok (.pattern input regex)
    | none => .error (.invalidPattern text)
  | multipleOf factor => .ok (.multipleOf input factor)
  | minimum _ | maximum _ | exclusiveMinimum _ | exclusiveMaximum _ => .ok input

end Constraint

namespace TypeDef

/-- All bounds among `rules` as one interval; of two for one end the later counts. -/
def bounds? (rules : List Constraint) : Option Interval :=
  rules.foldl (fun acc rule =>
    match rule.bound? (acc.getD .full) with
    | some interval => some interval
    | none => acc) none

/-- Refines an input by `rules`: first the bounds, then the others in their order. -/
def refineAll (input : Input) (rules : List Constraint) : Except DefinitionError Input :=
  let bounded := match bounds? rules with
    | some interval => Input.inRange input interval
    | none => input
  rules.foldlM Constraint.refine bounded

/-- The input of a basic type. -/
def scalarInput : Scalar → Input
  | .null => .null
  | .boolean => .boolean
  | .integer => .integer
  | .number => .number
  | .string => .text none
  | .date => .text (some "date")
  | .dateTime => .text (some "date-time")
  | .any => .any

mutual

/-- The input of a description. Every type that it names has to be in `registry`; it is then looked
up by `Input.defer`. -/
def input (registry : Registry) : TypeDef → Except DefinitionError Input
  | .struct keys => do
    let members ← keyInputs registry keys
    .ok (.object members)
  | .sum left right => do
    let l ← input registry left
    let r ← input registry right
    .ok (.either l r)
  | .constrained base rules => do
    let i ← input registry base
    refineAll i rules
  | .array member => do
    let i ← input registry member
    .ok (.list i)
  | .enum values => .ok (.enum .any (values.map Literal.toJson))
  | .scalar s => .ok (scalarInput s)
  | .named name => if registry.contains name then .ok (.defer name) else .error (.unknownType name)

/-- The members of a record. -/
def keyInputs (registry : Registry) : List (Member TypeDef) →
    Except DefinitionError (List (Member Input))
  | [] => .ok []
  | ⟨key, type, required, description⟩ :: rest => do
    let value ← input registry type
    let more ← keyInputs registry rest
    .ok (⟨key, value, required, description⟩ :: more)

end

end TypeDef

namespace Registry

/-- The input of a named type. -/
def entryInput (registry : Registry) (name : String) (d : TypeDef) :
    Except DefinitionError Input := do
  let i ← d.input registry
  .ok (.referenced i (TypeName.dottedName name))

/-- The inputs of all types, by name, or the first error. -/
def inputs (registry : Registry) : Except DefinitionError (Dict Input) :=
  registry.mapM fun e => do
    let i ← entryInput registry e.1 e.2
    .ok (e.1, i)

/-- The input of a type among those of a registry. -/
def requireInput (inputs : Dict Input) (name : String) : Except DefinitionError Input :=
  match inputs.get? name with
  | some i => .ok i
  | none => .error (.unknownType name)

end Registry

end JsonShape
