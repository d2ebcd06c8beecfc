import JsonShape.Name
import JsonShape.Node.Basic

/-!
# Normal forms of unions

Unions are declared two by two. Normalization makes one flat union of any nesting, in which equal
members stand once, and leaves a single member as it is.

* `Node.flattenSums` and `Node.dedupOneOf` are the two passes, each on one node.
* `Node.normalize` applies them throughout a tree, one after the other.
* `Node.renameRefs` gives references the names of components.
-/

namespace JsonShape

namespace Node

/-- The members of a `oneOf`, and otherwise the tree alone. -/
def alternatives : Node → List Node
  | oneOf members => members
  | n => [n]

/-- Turns a `sum` into a `oneOf`, with the members of inner ones spliced in. -/
def flattenSums : Node → Node
  | sum left right => oneOf (left.alternatives ++ right.alternatives)
  | n => n

/-- Adds a tree unless one that is the `same` is there. -/
def addDistinct (ns : List Node) (n : Node) : List Node :=
  if ns.any fun m => m.same n then ns else ns ++ [n]

/-- The different trees of a list, in the order of their first occurrence. -/
def distinct (ns : List Node) : List Node := ns.foldl addDistinct []

/-- The union of some members, and a single one as it is. -/
def ofAlternatives : List Node → Node
  | [n] => n
  | ns => oneOf ns

/-- Drops repeated members of a `oneOf`, with the members of inner ones spliced in. -/
def dedupOneOf : Node → Node
  | oneOf members => ofAlternatives (distinct (members.flatMap alternatives))
  | n => n

/-- The normal form of a tree: first `flattenSums` everywhere, then `dedupOneOf`. -/
def normalize (n : Node) : Node := (n.transform flattenSums).transform dedupOneOf

/-- Gives a reference the name of its component. -/
def renameLeaf : Leaf → Leaf
  | .ref name => .ref (TypeName.safeName name)
  | leaf => leaf

/-- Gives every reference of a tree the name of its component, `TypeName.safeName`. -/
def renameRefs (n : Node) : Node := n.transform (mapLeaf renameLeaf)

end Node

end JsonShape
