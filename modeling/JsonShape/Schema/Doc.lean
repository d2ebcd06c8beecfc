import JsonShape.Member
import JsonShape.Schema.Fragment

/-!
# Documentation of a shape

The documentation of a shape is a fragment together with the components that the fragment mentions.
A component is not written out there: it is kept as a producer of its own documentation, of any
type `α`, so that shapes that mention one another can be documented.

* `Doc.combine` builds one fragment from several; of two producers under one name the first wins.
* `Doc.record` documents a record whose members have been documented.
-/

namespace JsonShape

/-- A fragment, and the producers of the components it mentions, by name. -/
structure Doc (α : Type) where
  fragment : Json
  found : Dict α

namespace Doc

variable {α : Type}

/-- The documentation of a fragment that mentions no component. -/
def plain (fragment : Json) : Doc α := ⟨fragment, []⟩

/-- Changes the fragment. -/
def mapFragment (f : Json → Json) (d : Doc α) : Doc α := ⟨f d.fragment, d.found⟩

/-- The documentation of a reference to a component. -/
def reference (name : String) (producer : α) : Doc α :=
  ⟨Fragment.reference name, [(name, producer)]⟩

/-- One fragment from several by `f`. Of two producers with one name, the first is kept. -/
def combine (docs : List (Doc α)) (f : List Json → Json) : Doc α :=
  ⟨f (docs.map fragment), docs.foldl (fun acc d => acc.absorb d.found) []⟩

/-- A union of two shapes. -/
def oneOf (a b : Doc α) : Doc α := combine [a, b] Fragment.oneOf

/-- A shape that has to fit two descriptions. -/
def allOf (a b : Doc α) : Doc α := combine [a, b] Fragment.allOf

/-- Adds a description. -/
def described (text : String) (d : Doc α) : Doc α := d.mapFragment (Fragment.described · text)

/-- Adds keywords. -/
def merge (extra : Dict Json) (d : Doc α) : Doc α := d.mapFragment (Fragment.merge · extra)

/-- The documentation of one member. -/
def ofMember (m : Member (Doc α)) : Doc α :=
  match m.description with
  | some text => m.value.described text
  | none => m.value

/-- The documentation of a record, which has the declarations in force (`Member.distinct`). -/
def record (members : List (Member (Doc α))) : Doc α :=
  let declared := Member.distinct members
  combine (declared.map ofMember) fun fragments =>
    Fragment.object ((Member.keys declared).zip fragments)
      ((declared.filter Member.required).map Member.key)

end Doc

end JsonShape
