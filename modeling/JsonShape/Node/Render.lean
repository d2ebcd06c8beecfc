import JsonShape.Node.Basic
import JsonShape.Schema.Fragment

/-!
# Fragments of type trees

`Node.render` is the schema fragment of a normalized tree. The type of null is no member of a
rendered union: it makes the others nullable.
-/

namespace JsonShape

namespace Node

/-- The fragment of the type of null. -/
def nullFragment : Json := .object [("type", .string "null")]

/-- Adds the description of some remarks. -/
def describe (notes : Notes) (fragment : Json) : Json :=
  match notes.get? descriptionNote with
  | some text => Fragment.described fragment text
  | none => fragment

/-- A keyword whose value is a text, if there is one. -/
def keyword (name : String) : Option String → Dict Json
  | some text => [(name, .string text)]
  | none => []

/-- The fragment of a basic type. -/
def renderScalar (s : Scalar) (notes : Notes) : Json :=
  .object (keyword "type" s.typeName? ++ keyword "format" s.format? ++
    keyword "description" (notes.get? descriptionNote))

/-- The fragment of an object type. A key that is declared again has its last fragment; `required`
has a name for each declaration that requires it. -/
def renderObject (attributes : List (Attribute Json)) : Json :=
  Fragment.object
    (Dict.ofList (attributes.map fun a => (a.key, describe a.notes a.value)))
    ((attributes.filter Attribute.required).map Attribute.key)

/-- The fragment of a union: null makes the others `nullable`, and a single one needs no `oneOf`. -/
def renderOneOf (members : List Json) : Json :=
  let isNullFragment (m : Json) : Bool := m.same nullFragment
  let nullable (core : Json) : Json :=
    if members.any isNullFragment then Fragment.nullable core else core
  match members.filter fun m => !isNullFragment m with
  | [] => nullFragment
  | [single] => nullable single
  | others => nullable (.object [("oneOf", .array others)])

/-- The type keyword of a value of an enumeration. -/
def literalType : Json → String
  | .bool _ => "boolean"
  | .number (.int _) => "integer"
  | .number (.float _) => "number"
  | _ => "string"

/-- The type keyword that all values share but for null, if any. -/
def enumType? (values : List Json) : Option String :=
  match (values.filter fun v => !v.isNull).map literalType with
  | [] => none
  | first :: rest => if rest.all (· = first) then some first else none

/-- The fragment of an enumeration. -/
def renderEnum (values : List Json) : Json :=
  .object (keyword "type" (enumType? values) ++
    (if values.any Json.isNull then [("nullable", .bool true)] else []) ++
    [("enum", .array values)])

/-- The fragment of one layer. -/
def renderLayer : Layer Json → Json
  | .primitive (.scalar s) notes => renderScalar s notes
  | .primitive (.ref name) notes => describe notes (Fragment.reference name)
  | .object attributes => renderObject attributes
  | .sum left right => renderOneOf [left, right]
  | .oneOf members => renderOneOf members
  | .list item => Fragment.array item
  | .enum values => renderEnum (values.map Literal.toJson)

/-- The fragment of a tree, layer by layer (`renderLayer`). -/
def render (n : Node) : Json := n.fold renderLayer

end Node

end JsonShape
