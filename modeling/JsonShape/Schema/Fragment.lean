import JsonShape.Json.Basic

/-!
# Schema fragments

A fragment is the JSON value that documents one shape. These functions build fragments from smaller
ones.

* `reference` points to a named component; keywords cannot stand beside a reference, so `merge`
  wraps one into `allOf` before it adds any.
* `oneOf` splices bare unions, drops equal members and leaves a single one as it is.
* `allOf` splices bare intersections, so chains of inheritance stay flat.
-/

namespace JsonShape

namespace Fragment

/-- What every reference to a component starts with. -/
def componentPrefix : String := "#/components/schemas/"

/-- The keyword of references. -/
def refKey : String := "$ref"

/-- A reference to a component. -/
def reference (name : String) : Json := .object [(refKey, .string (componentPrefix ++ name))]

/-- The characters of `s` behind `start`, if it starts so. -/
def dropStart? : (start s : List Char) → Option (List Char)
  | [], s => some s
  | _ :: _, [] => none
  | c :: start, d :: s => if c = d then dropStart? start s else none

/-- The component a fragment refers to. -/
def referencedName (schema : Json) : Option String := do
  let target ← schema.get? refKey
  let text ← target.string?
  let name ← dropStart? componentPrefix.toList text.toList
  some (String.ofList name)

/-- Whether a fragment has the keyword of references. -/
def isReference (schema : Json) : Bool := (schema.get? refKey).isSome

/-- Adds the keywords `extra` to a fragment, over those it has. A reference, or a value that is no
object, is wrapped in an `allOf` first. -/
def merge (schema : Json) (extra : Dict Json) : Json :=
  if extra.isEmpty then schema
  else
    match schema with
    | .object ms =>
      if Dict.contains ms refKey then .object (Dict.extend [("allOf", .array [schema])] extra)
      else .object (Dict.extend ms extra)
    | _ => .object (Dict.extend [("allOf", .array [schema])] extra)

/-- Adds one keyword. -/
def mergeOne (schema : Json) (key : String) (value : Json) : Json := merge schema [(key, value)]

/-- Adds a description. -/
def described (schema : Json) (text : String) : Json :=
  mergeOne schema "description" (.string text)

/-- Admits null. -/
def nullable (schema : Json) : Json := mergeOne schema "nullable" (.bool true)

/-- The members of a fragment that consists of one list under a keyword, and otherwise the fragment
alone. -/
def splice (keyword : String) : Json → List Json
  | .object [(key, .array items)] =>
    if key = keyword then items else [.object [(key, .array items)]]
  | schema => [schema]

/-- Adds a member unless an equal one is there. -/
def addDistinct (members : List Json) (member : Json) : List Json :=
  if members.any (fun m => m.same member) then members else members ++ [member]

/-- The fragment of a union: inner ones are spliced in, equal members dropped, and a single one is
left as it is. -/
def oneOf (members : List Json) : Json :=
  match (members.flatMap (splice "oneOf")).foldl addDistinct [] with
  | [single] => single
  | flat => .object [("oneOf", .array flat)]

/-- The fragment of an intersection: inner ones are spliced in, and a single member is listed,
too. -/
def allOf (members : List Json) : Json :=
  .object [("allOf", .array (members.flatMap (splice "allOf")))]

/-- The fragment of a record, with no `required` where it is empty. -/
def object (properties : Dict Json) (required : List String) : Json :=
  .object ([("type", .string "object"), ("properties", .object properties)] ++
    (if required.isEmpty then [] else [("required", .array (required.map .string))]))

/-- The fragment of an array. -/
def array (items : Json) : Json := .object [("type", .string "array"), ("items", items)]

end Fragment

end JsonShape
