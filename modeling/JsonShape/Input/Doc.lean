import JsonShape.Input.Basic
import JsonShape.Schema.Parameter

/-!
# Documentation of inputs

`Input.doc` documents an input by a schema fragment. Components that it mentions are kept as inputs
of their own, which are documented when somebody collects them.

* `Input.components` lists the components of some documentation.
* `Input.parameters` turns documentation into path or query parameters.
-/

namespace JsonShape

namespace Input

variable [Regex.Engine]

/-- The documentation of a value of a basic type. -/
def typed (name : String) : Doc Input := .plain (.object [("type", .string name)])

/-- The documentation of null, which has no type of its own. -/
def nullDoc : Doc Input := .plain (.object [("nullable", .bool true), ("enum", .array [.null])])

mutual

/-- Documents a tree, where `deferred` documents definitions. -/
def docWith (deferred : String → Doc Input) : Input → Doc Input
  | .text .none => typed "string"
  | .text (.some format) =>
    .plain (.object [("type", .string "string"), ("format", .string format)])
  | .number => typed "number"
  | .integer => typed "integer"
  | .boolean => typed "boolean"
  | .null => nullDoc
  | .any => .plain (.object [])
  | .object members => .record (docMembers deferred members)
  | .merge parent child => .allOf (docWith deferred parent) (docWith deferred child)
  | .list item => (docWith deferred item).mapFragment Fragment.array
  | .either left right => .oneOf (docWith deferred left) (docWith deferred right)
  | .optional inner => (docWith deferred inner).mapFragment Fragment.nullable
  | .enum inner values => (docWith deferred inner).merge [("enum", .array values)]
  | .pattern inner regex => (docWith deferred inner).merge [("pattern", .string regex.source)]
  | .inRange inner interval => (docWith deferred inner).merge interval.keywords
  | .multipleOf inner factor =>
    (docWith deferred inner).merge [("multipleOf", .number (.plain factor))]
  | .mapped inner _ => docWith deferred inner
  | .described inner description => (docWith deferred inner).described description
  | .referenced inner name => .reference name inner
  | .defer name => deferred name

/-- Documents the members of a record. -/
def docMembers (deferred : String → Doc Input) : List (Member Input) → List (Member (Doc Input))
  | [] => []
  | ⟨key, value, required, description⟩ :: rest =>
    ⟨key, docWith deferred value, required, description⟩ :: docMembers deferred rest

end

/-- Documents a tree, looking definitions up at most `limit` times inside one another. A definition
that leads back to itself is documented by the empty fragment. -/
def docAt (defs : Dict Input) : (limit : Nat) → Input → Doc Input
  | 0 => docWith fun _ => .plain (.object [])
  | limit + 1 => docWith fun name =>
    match defs.get? name with
    | some i => docAt defs limit i
    | none => .plain (.object [])

/-- The documentation of an input. -/
def doc (defs : Dict Input) (i : Input) : Doc Input := docAt defs defs.length i

/-- At most how many components `docs` and the definitions can mention, which is as many steps as
collecting them takes. -/
def componentBound (defs : Dict Input) (docs : List (Doc Input)) : Nat :=
  let count : Dict Input → Nat := total fun e => e.2.referenceCount + 1
  count defs + total (fun d => count d.found) docs

/-- The components that some documentation mentions, directly or not, sorted by name. -/
def components (defs : Dict Input) (docs : List (Doc Input)) : Dict Json :=
  let all : Id (Option (Dict Json)) :=
    Components.collect (fun i => pure (doc defs i)) (componentBound defs docs) docs
  all.run.getD []

/-- The parameters of some documentation. A component is taken up once for each mention, so the
square of their number bounds the search. -/
def parameters (defs : Dict Input) (d : Doc Input) (location : Location) :
    Except ParameterError (List Parameter) :=
  let bound := componentBound defs [d] + 1
  let all : Id (Except ParameterError (List Parameter)) :=
    Parameter.ofDoc (fun i => pure (doc defs i)) (bound * bound) d location
  all.run

end Input

end JsonShape
