import JsonShape.TypeDef.Basic

/-!
# Trees of type descriptions

`TypeDef.tree` is the tree of a description, together with the names of the types that it mentions,
in the order of their first mention. Rules leave no trace in it.

* `TypeDef.rootTree` is the tree of a named type, which does not count as one that it mentions.
-/

namespace JsonShape

namespace TypeDef

/-- A tree and the names of the types it mentions. -/
structure Tree where
  node : Node
  found : List String
  deriving DecidableEq

/-- Adds the names of `more` that are not there yet. -/
def addNames (names more : List String) : List String :=
  more.foldl (fun acc n => if acc.contains n then acc else acc ++ [n]) names

/-- The remarks about one key. -/
def keyNotes : Option String → Notes
  | some text => [(descriptionNote, text)]
  | none => []

mutual

/-- The tree of a description. -/
def tree : TypeDef → Tree
  | .struct keys =>
    let (attributes, found) := keyTrees keys []
    ⟨.object attributes, found⟩
  | .sum left right =>
    let l := tree left
    let r := tree right
    ⟨.sum l.node r.node, addNames l.found r.found⟩
  | .constrained base _ => tree base
  | .array member =>
    let t := tree member
    ⟨.list t.node, t.found⟩
  | .enum values => ⟨.enum values, []⟩
  | .scalar s => ⟨.scalar s, []⟩
  | .named name => ⟨.reference name, [name]⟩

/-- The members of a record, and the names that they add to those found before. -/
def keyTrees : List (Member TypeDef) → (found : List String) → List (Attribute Node) × List String
  | [], found => ([], found)
  | ⟨key, type, required, description⟩ :: rest, found =>
    let t := tree type
    let (attributes, found) := keyTrees rest (addNames found t.found)
    (⟨key, required, t.node, keyNotes description⟩ :: attributes, found)

end

/-- The tree of the type `name`. A type that is described as itself admits every value. -/
def rootTree (name : String) (d : TypeDef) : Tree :=
  match d with
  | .named target =>
    if target = name then ⟨.scalar .any, []⟩ else ⟨.reference target, [target]⟩
  | d =>
    let t := d.tree
    ⟨t.node, t.found.filter (· ≠ name)⟩

end TypeDef

end JsonShape
