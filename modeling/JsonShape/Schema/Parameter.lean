import JsonShape.Schema.Component

/-!
# Path and query parameters

Each property of an object becomes one parameter. A property that is an object itself cannot be one
parameter; an array can be one in a query, where it is repeated, and not in a path.

* `Parameter.resolve` follows references, `Parameter.flatten` merges intersections into one
  fragment.
* `Parameter.project` answers the parameters of a fragment, or why there are none.
-/

namespace JsonShape

/-- Where a parameter stands in a request. -/
inductive Location
  | path
  | query
  deriving DecidableEq

/-- The name of a place. -/
def Location.text : Location → String
  | path => "path"
  | query => "query"

/-- Why a fragment has no parameters. -/
inductive ParameterError
  /-- A property is too complicated for its place. -/
  | tooComplicated (location : Location) (name : String)
  | notAnObject
  deriving DecidableEq

/-- The wording of a parameter error. -/
def ParameterError.message : ParameterError → String
  | tooComplicated location name =>
    "schema of `" ++ name ++ "` is too complicated for a " ++ location.text ++ " parameter"
  | notAnObject => "parameters must come from an object schema"

/-- The description of one parameter. -/
structure Parameter where
  name : String
  location : Location
  schema : Json
  required : Bool
  /-- Whether the values of an array are given by repeating the parameter. -/
  repeated : Bool

namespace Parameter

/-- The parameter as a JSON value. -/
def toJson (p : Parameter) : Json :=
  .object ([("name", .string p.name), ("in", .string p.location.text), ("schema", p.schema),
    ("required", .bool p.required)] ++
    (if p.repeated then [("style", .string "form"), ("explode", .bool true)] else []))

/-- Follows references until a fragment that is none, an unknown component, or one that was
followed before. -/
def resolve : (steps : Nat) → (components : Dict Json) → Json → Json
  | 0, _, schema => schema
  | steps + 1, components, schema =>
    match Fragment.referencedName schema with
    | none => schema
    | some name =>
      match components.get? name with
      | none => schema
      | some target => resolve steps (components.erase name) target

/-- The keywords, properties and required names gathered from an intersection. -/
structure Gathered where
  keywords : Dict Json
  properties : Dict Json
  required : List Json

/-- Adds one keyword of a member: `properties` and `required` names are united, any other keyword
replaces an earlier one. -/
def Gathered.add (g : Gathered) (key : String) (value : Json) : Gathered :=
  match key, value with
  | "properties", .object more => { g with properties := g.properties.extend more }
  | "required", .array names => { g with required := names.foldl Fragment.addDistinct g.required }
  | _, _ => { g with keywords := g.keywords.insert key value }

/-- Adds the keywords of a member; a member that is no object has none. -/
def Gathered.addMember (g : Gathered) : Json → Gathered
  | .object ms => ms.foldl (fun g e => g.add e.1 e.2) g
  | _ => g

/-- Adds the keywords that stand beside the intersection. -/
def Gathered.addOuter (g : Gathered) (outer : Dict Json) : Gathered :=
  { g with keywords := g.keywords.extend (outer.filter fun e => e.1 ≠ "allOf") }

/-- The one fragment that was gathered. -/
def Gathered.toJson (g : Gathered) : Json :=
  let keywords := if g.properties.isEmpty then g.keywords
    else (g.keywords.insert "properties" (.object g.properties)).insert "type" (.string "object")
  .object (if g.required.isEmpty then keywords
    else keywords.insert "required" (.array g.required))

/-- Merges intersections into one fragment, at most `steps` of them inside one another. -/
def flatten (components : Dict Json) : (steps : Nat) → Json → Json
  | 0, schema => schema
  | steps + 1, schema =>
    match (schema.get? "allOf").bind Json.items? with
    | none => schema
    | some members =>
      let flat := members.map fun m =>
        flatten components steps (resolve components.length components m)
      let inner := flat.foldl Gathered.addMember ⟨[], [], []⟩
      (inner.addOuter (schema.members?.getD [])).toJson

/-- How many intersections can stand inside one another without coming back to a component. -/
def flattenSteps (components : Dict Json) (schema : Json) : Nat :=
  schema.depth + total (fun e => e.2.depth + 1) components + 1

/-- What a fragment stands for: references followed (`resolve`), intersections merged
(`flatten`). -/
def shape (components : Dict Json) (schema : Json) : Json :=
  flatten components (flattenSteps components schema) (resolve components.length components schema)

/-- Whether the keyword `type` of a fragment is this name. -/
def hasType (schema : Json) (name : String) : Bool :=
  (schema.get? "type").bind Json.string? = some name

/-- Whether a fragment documents objects, by `type` or by `properties`; unions are not looked
into. -/
def isObject (schema : Json) : Bool := hasType schema "object" || (schema.get? "properties").isSome

/-- Whether a fragment documents arrays. -/
def isArray (schema : Json) : Bool := hasType schema "array"

/-- The parameter of one property, which is `tooComplicated` if it stands for an object, or in a
path for an array. A parameter in a path is always required. -/
def ofProperty (components : Dict Json) (required : List String) (location : Location)
    (name : String) (schema : Json) : Except ParameterError Parameter :=
  let shape := shape components schema
  if isObject shape ∨ (isArray shape ∧ location = .path) then
    .error (.tooComplicated location name)
  else
    .ok { name, location, schema, required := location = .path || required.contains name,
          repeated := isArray shape }

/-- The parameters of a fragment, read against its components: one for each property, or the first
error. -/
def project (components : Dict Json) (location : Location) (schema : Json) :
    Except ParameterError (List Parameter) :=
  let root := shape components schema
  if !isObject root then .error .notAnObject
  else
    let required :=
      (((root.get? "required").bind Json.items?).getD []).filterMap Json.string?
    let properties := ((root.get? "properties").bind Json.members?).getD []
    properties.mapM fun e => ofProperty components required location e.1 e.2

/-- The parameters of some documentation; its components are produced within `steps` steps. -/
def ofDoc {α : Type} {m : Type → Type} [Monad m] (force : α → m (Doc α)) (steps : Nat)
    (doc : Doc α) (location : Location) : m (Except ParameterError (List Parameter)) := do
  let docs ← Components.reachable force steps doc.found
  pure (project (docs.mapValues Doc.fragment) location doc.fragment)

end Parameter

end JsonShape
