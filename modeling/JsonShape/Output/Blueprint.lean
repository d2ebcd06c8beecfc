import JsonShape.Output.Field

/-!
# Blueprints

A blueprint is a record whose views are edited copies of its field list: `add` appends a field or
replaces the one of its name, `except` drops one. The requested view is found by testing the views
in their order.

* `Blueprint.edit` applies edits to a field list.
* `Blueprint.build` makes a blueprint, or says why there is none.
-/

namespace JsonShape

/-- A record whose views are edited copies of its fields. -/
structure Blueprint where
  name : String
  /-- The default view. -/
  base : Output
  views : Dict Output

/-- One edit of a field list. -/
inductive FieldEdit
  | add (field : Field)
  | except (name : String)

namespace Blueprint

/-- Replaces the field of the same name, or appends the field. -/
def addField (fields : List Field) (field : Field) : List Field :=
  match fields with
  | [] => [field]
  | f :: rest => if f.name = field.name then field :: rest else f :: addField rest field

/-- Applies one edit. -/
def applyEdit (fields : List Field) : FieldEdit → Except DefinitionError (List Field)
  | .add field => .ok (addField fields field)
  | .except name =>
    if fields.any fun f => f.name == name then .ok (fields.filter fun f => f.name != name)
    else .error (.unknownField name)

/-- Applies edits in their order. -/
def edit (fields : List Field) (edits : List FieldEdit) : Except DefinitionError (List Field) :=
  edits.foldlM applyEdit fields

/-- The views of a blueprint. -/
def buildViews (defs : Dict Output) (name : String) (fields : List Field) :
    (built : Dict Output) → List (String × List FieldEdit) → Except DefinitionError (Dict Output)
  | built, [] => .ok built
  | built, (view, edits) :: rest => do
    checkViewName built view
    let edited ← edit fields edits
    Field.checkDistinct edited
    let shape := Output.referenced (Field.object defs edited) (name ++ "." ++ view)
    buildViews defs name fields (built ++ [(view, shape)]) rest

/-- A blueprint: distinct `fields`, and for each of `views` a copy of them, edited, with a name that
is new. -/
def build (defs : Dict Output) (name : String) (fields : List Field)
    (views : List (String × List FieldEdit)) : Except DefinitionError Blueprint := do
  Field.checkDistinct fields
  let base := Output.referenced (Field.object defs fields) name
  let views ← buildViews defs name fields [] views
  .ok ⟨name, base, views⟩

/-- The blueprint as an output: its views are tested one after the other, `Output.chain`. -/
def output (b : Blueprint) : Output := .chain b.base b.views

end Blueprint

end JsonShape
