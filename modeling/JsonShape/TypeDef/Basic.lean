import JsonShape.Member
import JsonShape.Node.Basic

/-!
# Type descriptions

A type description says what a type is in terms of basic types and of other named types. A registry
holds the descriptions of named types in the order of their declaration.

* `TypeDef.toJson` and `Registry.toJson` write descriptions as JSON.
-/

namespace JsonShape

/-- A rule that the values of a constrained type obey. -/
inductive Constraint
  | pattern (text : String)
  | minimum (x : Binary64)
  | maximum (x : Binary64)
  | exclusiveMinimum (x : Binary64)
  | exclusiveMaximum (x : Binary64)
  | multipleOf (x : Binary64)
  deriving DecidableEq

/-- What a type is. -/
inductive TypeDef
  /-- A record with these keys. -/
  | struct (keys : List (Member TypeDef))
  /-- A union of two types. -/
  | sum (left right : TypeDef)
  /-- The values of a type that obey rules. -/
  | constrained (base : TypeDef) (rules : List Constraint)
  | array (member : TypeDef)
  | enum (values : List Literal)
  | scalar (s : Scalar)
  /-- The type of this name. -/
  | named (name : String)

/-- The descriptions of named types. -/
abbrev Registry := Dict TypeDef

namespace Constraint

/-- The name of a kind of rule. -/
def tag : Constraint → String
  | pattern _ => "pattern"
  | minimum _ => "minimum"
  | maximum _ => "maximum"
  | exclusiveMinimum _ => "exclusive_minimum"
  | exclusiveMaximum _ => "exclusive_maximum"
  | multipleOf _ => "multiple_of"

/-- What a rule asks for. -/
def argument : Constraint → Json
  | pattern text => .string text
  | minimum x | maximum x | exclusiveMinimum x | exclusiveMaximum x | multipleOf x =>
    .number (.float x)

/-- The rule as a JSON value. -/
def toJson (c : Constraint) : Json := .object [(c.tag, c.argument)]

end Constraint

namespace TypeDef

/-- The member that names the kind of a description. -/
def kindKey : String := "kind"

/-- A description of a kind with these fields. -/
def tagged (kind : String) (fields : Dict Json) : Json :=
  .object ((kindKey, .string kind) :: fields)

/-- The description of one key of a record. -/
def keyToJson (m : Member Json) : Json :=
  .object ([("name", .string m.key), ("required", .bool m.required), ("type", m.value)] ++
    match m.description with
    | some text => [("description", .string text)]
    | none => [])

mutual

/-- The description as a JSON value: an object of its kind, under `kindKey`, and its fields. -/
def toJson : TypeDef → Json
  | .struct keys => tagged "struct" [("keys", .array ((keysToJson keys).map keyToJson))]
  | .sum left right => tagged "sum" [("left", toJson left), ("right", toJson right)]
  | .constrained base rules =>
    tagged "constrained" [("base", toJson base), ("rules", .array (rules.map Constraint.toJson))]
  | .array member => tagged "array" [("member", toJson member)]
  | .enum values => tagged "enum" [("values", .array (values.map Literal.toJson))]
  | .scalar s => tagged "scalar" [("scalar", .string s.tag)]
  | .named name => tagged "named" [("name", .string name)]

/-- The keys of a record with their types as JSON values. -/
def keysToJson : List (Member TypeDef) → List (Member Json)
  | [] => []
  | ⟨key, type, required, description⟩ :: rest =>
    ⟨key, toJson type, required, description⟩ :: keysToJson rest

end

end TypeDef

/-- The registry as a JSON value. -/
def Registry.toJson (r : Registry) : Json := .object (Dict.mapValues TypeDef.toJson r)

end JsonShape
