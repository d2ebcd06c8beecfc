import JsonShape.Definition
import JsonShape.Json.Basic
import JsonShape.Member

/-!
# Outputs

An output describes how a program writes its values as JSON. It is a tree of shapes; definitions
that mention themselves go through `Output.defer`, which names a definition of a table.

An output may have views: named alternatives, of which the caller requests one. The default view
is called `base`.

* `Property` is a member of a written object: how its value is read, and how it is written.
* `Output.ofViews` makes an output of several views.
-/

namespace JsonShape

/-- A member of a written object. -/
structure Property (α : Type) where
  key : String
  /-- Reads the member from the value; without it, the member is the whole value. -/
  extract : Option (Json → Json)
  value : α
  required : Bool
  description : Option String

namespace Property

variable {α : Type}

/-- The part of a value that a property writes. -/
def read (p : Property α) (v : Json) : Json :=
  match p.extract with
  | some f => f v
  | none => v

end Property

/-- A description of written values. Members, tests and maps are functions of values. -/
inductive Output
  /-- Strings. The format is a hint for the documentation. -/
  | text (format : Option String)
  | number
  /-- Numbers without a fractional part. -/
  | integer
  | boolean
  | null
  /-- Objects with these members. The requested view does not reach them. -/
  | object (properties : List (Property Output))
  /-- The members of the child over those of the parent. Views are the child's. -/
  | merge (parent child : Output)
  | list (item : Output)
  /-- Null, or a value of the inner shape. -/
  | optional (inner : Output)
  | described (inner : Output) (text : String)
  /-- The inner shape, documented as a component of this name. -/
  | referenced (inner : Output) (name : String)
  /-- The inner shape of the value that a function makes. -/
  | viaMap (inner : Output) (f : Json → Json)
  /-- The requested view, and the default one where it is not there. The default view stands
  between the others. -/
  | viewed (earlier : List (String × Output)) (base : Output) (later : List (String × Output))
  /-- One of two shapes, by a test of the value and the requested view. -/
  | cond (test : Json → Option String → Bool) (holds otherwise : Output)
  /-- The first of the views that is requested, and otherwise the default one. -/
  | chain (base : Output) (views : List (String × Output))
  /-- The definition of this name, or its default view. -/
  | defer (name : String) (base : Bool)

/-- The name of the default view. -/
def baseView : String := "base"

namespace Output

/-- An output that tests whether a view is requested. -/
def onView (name : String) (holds otherwise : Output) : Output :=
  .cond (fun _ view => view == some name) holds otherwise

/-- The entries in front of the default view (`baseView`), that view, and the entries behind it. -/
def splitBase : Dict Output → Option (Dict Output × Output × Dict Output)
  | [] => none
  | (name, o) :: rest =>
    if name = baseView then some ([], o, rest)
    else (splitBase rest).map fun (earlier, base, later) => ((name, o) :: earlier, base, later)

/-- An output of several views, one of which has to be the default one (`baseView`). -/
def ofViews (views : Dict Output) : Except DefinitionError Output :=
  match splitBase views with
  | some (earlier, base, later) => .ok (.viewed earlier base later)
  | none => .error .missingBase

mutual

/-- How many components a tree names. -/
def referenceCount : Output → Nat
  | .object properties => referenceCountProperties properties
  | .merge a b | .cond _ a b => a.referenceCount + b.referenceCount
  | .list a | .optional a | .described a _ | .viaMap a _ => a.referenceCount
  | .referenced a _ => a.referenceCount + 1
  | .viewed earlier base later =>
    referenceCountViews earlier + base.referenceCount + referenceCountViews later
  | .chain base views => base.referenceCount + referenceCountViews views
  | _ => 0

/-- How many components the properties name. -/
def referenceCountProperties : List (Property Output) → Nat
  | [] => 0
  | ⟨_, _, value, _, _⟩ :: rest => value.referenceCount + referenceCountProperties rest

/-- How many components the views name. -/
def referenceCountViews : List (String × Output) → Nat
  | [] => 0
  | (_, o) :: rest => o.referenceCount + referenceCountViews rest

end

end Output

end JsonShape
