/-!
# Broken definitions

A definition that cannot be built is refused with its cause. Such errors concern the definition of
a shape, never a value.
-/

namespace JsonShape

/-- Why a definition cannot be built. -/
inductive DefinitionError
  /-- A view that no one declared was selected. -/
  | unknownView (view : String)
  | duplicateView (view : String)
  /-- A view took the name of the default one. -/
  | reservedView
  /-- A family of views has no default one. -/
  | missingBase
  | duplicateField (field : String)
  /-- A field that is not there was left out. -/
  | unknownField (field : String)
  | invalidPattern (pattern : String)
  | unknownType (name : String)
  deriving DecidableEq

/-- The wording of a definition error. -/
def DefinitionError.message : DefinitionError → String
  | unknownView view => "view `" ++ view ++ "` is not defined"
  | duplicateView view => "view `" ++ view ++ "` is declared more than once"
  | reservedView => "`base` names the implicit default view and cannot be redefined"
  | missingBase => "a viewed output needs a `base` entry"
  | duplicateField field => "field `" ++ field ++ "` is declared more than once"
  | unknownField field => "field `" ++ field ++ "` is not defined"
  | invalidPattern pattern => "invalid pattern `" ++ pattern ++ "`"
  | unknownType name => "unknown type `" ++ name ++ "`"

end JsonShape
