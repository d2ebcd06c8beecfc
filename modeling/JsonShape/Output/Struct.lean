import JsonShape.Output.Field

/-!
# Record outputs

A record output has a name, fields, and possibly a parent and views. Each view is the default shape
with the view's own fields laid over it, and is documented under the name of the record and of the
view, with a point between them.

* `OutputStruct.build` makes a record, or says why there is none.
-/

namespace JsonShape

/-- A named record. -/
structure OutputStruct where
  name : String
  /-- The fields declared by the record itself. -/
  own : Output
  /-- The own fields laid over those of the parent. -/
  inherited : Output
  /-- The default view. -/
  base : Output
  /-- All views. -/
  output : Output

namespace OutputStruct

/-- The views of a record after the default one. -/
def buildViews (defs : Dict Output) (name : String) (base : Output) :
    (built : Dict Output) → List (String × List Field) → Except DefinitionError (Dict Output)
  | built, [] => .ok built
  | built, (view, fields) :: rest => do
    checkViewName built view
    Field.checkDistinct fields
    let shape := Output.merge base (Field.object defs fields)
    buildViews defs name base (built ++ [(view, .referenced shape (name ++ "." ++ view))]) rest

/-- A record. The fields of the parent's default view are inherited, and its views are not. Each of
`views` is laid over the default view. -/
def build (defs : Dict Output) (name : String) (parent : Option OutputStruct) (fields : List Field)
    (views : List (String × List Field)) : Except DefinitionError OutputStruct := do
  Field.checkDistinct fields
  let own := Field.object defs fields
  let inherited := match parent with
    | some parent => .merge parent.base own
    | none => own
  let base := Output.referenced inherited name
  let views ← buildViews defs name base [] views
  let output := if views.isEmpty then base else .viewed [] base views
  .ok ⟨name, own, inherited, base, output⟩

/-- The view of this name. -/
def viewOf? (defs : Dict Output) (s : OutputStruct) (view : String) : Option Output :=
  if view = baseView then some s.base else s.output.viewOf? defs view

/-- The selected view, which is `unknownView` if there is none of this name. -/
def view (defs : Dict Output) (s : OutputStruct) (name : String) : Except DefinitionError Output :=
  match s.viewOf? defs name with
  | some selected => .ok selected
  | none => .error (.unknownView name)

end OutputStruct

end JsonShape
