/-!
# Places in a JSON document

A path leads from the root of a document to one of its values. It is written with a point between
member names and with indices in brackets (`points[1].y`); the root itself is a point.
-/

namespace JsonShape

namespace Json

/-- One step into a document. -/
inductive Step
  /-- Into the member of this name. -/
  | key (name : String)
  /-- Into the item at this index. -/
  | index (i : Nat)
  /-- To a member whose name could not be read. -/
  | unknown
  deriving DecidableEq

/-- The steps from the root to a value. -/
abbrev Path := List Step

namespace Path

/-- The text of one step, after a point where one is due. -/
def stepText (first : Bool) : Step → String
  | .key name => (if first then "" else ".") ++ name
  | .index i => "[" ++ String.ofList (Nat.toDigits 10 i) ++ "]"
  | .unknown => (if first then "" else ".") ++ "?"

/-- The text of a path; the root is a point. -/
def text : Path → String
  | [] => "."
  | s :: rest => stepText true s ++ String.join (rest.map (stepText false))

end Path

end Json

end JsonShape
