import JsonShape.Output.View

/-!
# Fields of a record output

A field is one member of a record: its name, the output for its value, and how that value is read. A
field is written in the default view of its output.

* `Field.property` is the member that a field writes.
* `Field.checkDistinct` refuses a name that is declared twice.
-/

namespace JsonShape

/-- The output of a field. -/
inductive FieldSource
  | ready (o : Output)
  /-- The definition of this name. -/
  | lazy (name : String)

/-- A member of a record. -/
structure Field where
  name : String
  source : FieldSource
  /-- Reads the value; without it, the value is the member of the field's name. -/
  extract : Option (Json → Json)
  description : Option String
  /-- Whether the member is written where it is null. -/
  required : Bool

namespace Field

/-- The property that a field writes. Without an extractor, it reads the member of the field's name;
of its output it writes the default view, `Output.baseOf`. -/
def property (defs : Dict Output) (f : Field) : Property Output where
  key := f.name
  extract := some (f.extract.getD fun v => v.getOrNull f.name)
  value := match f.source with
    | .ready o => o.baseOf defs
    | .lazy name => .defer name true
  required := f.required
  description := f.description

/-- The object that fields write. -/
def object (defs : Dict Output) (fields : List Field) : Output :=
  .object (fields.map (property defs))

/-- Refuses a name that stands twice in `fields`. -/
def checkDistinct (fields : List Field) : Except DefinitionError Unit :=
  match Member.firstRepeated? [] (fields.map name) with
  | some name => .error (.duplicateField name)
  | none => .ok ()

end Field

/-- Refuses a view that takes the name of the default one or of an earlier one. -/
def checkViewName (earlier : Dict Output) (view : String) : Except DefinitionError Unit :=
  if view = baseView then .error .reservedView
  else if earlier.contains view then .error (.duplicateView view)
  else .ok ()

end JsonShape
