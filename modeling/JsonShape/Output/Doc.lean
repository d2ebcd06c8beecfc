import JsonShape.Output.View
import JsonShape.Schema.Parameter

/-!
# Documentation of outputs

`Output.doc` documents an output by a schema fragment: every shape that its views can take.
Components that it mentions are kept as outputs of their own.

* `Output.components` lists the components of some documentation.
-/

namespace JsonShape

namespace Output

/-- The documentation of a value of a basic type. -/
def typed (name : String) : Doc Output := .plain (.object [("type", .string name)])

mutual

/-- Documents a tree, given the documentation of deferred definitions. -/
def docWith (deferred : (name : String) → (base : Bool) → Doc Output) : Output → Doc Output
  | .text .none => typed "string"
  | .text (.some format) =>
    .plain (.object [("type", .string "string"), ("format", .string format)])
  | .number => typed "number"
  | .integer => typed "integer"
  | .boolean => typed "boolean"
  | .null => .plain (.object [("nullable", .bool true), ("enum", .array [.null])])
  | .object properties => .record (docProperties deferred properties)
  | .merge parent child => .allOf (docWith deferred parent) (docWith deferred child)
  | .list item => (docWith deferred item).mapFragment Fragment.array
  | .optional inner => (docWith deferred inner).mapFragment Fragment.nullable
  | .described inner description => (docWith deferred inner).described description
  | .referenced inner name => .reference name inner
  | .viaMap inner _ => docWith deferred inner
  | .viewed earlier base later =>
    .combine (docViews deferred earlier ++ docWith deferred base :: docViews deferred later)
      Fragment.oneOf
  | .cond _ holds otherwise => .oneOf (docWith deferred holds) (docWith deferred otherwise)
  | .chain base views =>
    .combine (docWith deferred base :: docViews deferred views) Fragment.oneOf
  | .defer name base => deferred name base

/-- Documents the properties of an object. -/
def docProperties (deferred : (name : String) → (base : Bool) → Doc Output) :
    List (Property Output) → List (Member (Doc Output))
  | [] => []
  | ⟨key, _, value, required, description⟩ :: rest =>
    ⟨key, docWith deferred value, required, description⟩ :: docProperties deferred rest

/-- Documents views. -/
def docViews (deferred : (name : String) → (base : Bool) → Doc Output) :
    List (String × Output) → List (Doc Output)
  | [] => []
  | (_, o) :: rest => docWith deferred o :: docViews deferred rest

end

/-- Documents a tree, looking definitions up at most `limit` times inside one another. A definition
that leads back to itself is documented by the empty fragment. -/
def docAt (defs : Dict Output) : (limit : Nat) → Output → Doc Output
  | 0 => docWith fun _ _ => .plain (.object [])
  | limit + 1 => docWith fun name base =>
    match resolve? defs name base with
    | some o => docAt defs limit o
    | none => .plain (.object [])

/-- The documentation of an output. -/
def doc (defs : Dict Output) (o : Output) : Doc Output := docAt defs (lookupLimit defs) o

/-- At most how many components some documentation can mention. -/
def componentBound (defs : Dict Output) (docs : List (Doc Output)) : Nat :=
  let count : Dict Output → Nat := total fun e => e.2.referenceCount + 1
  count defs + total (fun d => count d.found) docs

/-- The components that some documentation mentions, directly or not, sorted by name. -/
def components (defs : Dict Output) (docs : List (Doc Output)) : Dict Json :=
  let all : Id (Option (Dict Json)) :=
    Components.collect (fun o => pure (doc defs o)) (componentBound defs docs) docs
  all.run.getD []

end Output

end JsonShape
