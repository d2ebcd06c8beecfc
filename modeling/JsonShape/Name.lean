/-!
# Names of types

The parts of a type's name are separated by two colons (`Api::Person`). A component cannot have such
a name; its name has another separator in their place.

* `safeName` joins the parts by a low line, `dottedName` by a point.
-/

namespace JsonShape

namespace TypeName

/-- Replaces each pair of colons, from left to right. -/
def replaceColons (separator : Char) : List Char → List Char
  | ':' :: ':' :: rest => separator :: replaceColons separator rest
  | c :: rest => c :: replaceColons separator rest
  | [] => []

/-- The name with low lines: `Api_Person`. -/
def safeName (name : String) : String := String.ofList (replaceColons '_' name.toList)

/-- The name with points: `Api.Person`. -/
def dottedName (name : String) : String := String.ofList (replaceColons '.' name.toList)

end TypeName

end JsonShape
