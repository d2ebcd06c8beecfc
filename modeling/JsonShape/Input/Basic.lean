import JsonShape.Definition
import JsonShape.Interval
import JsonShape.Member
import JsonShape.Regex.Basic
import JsonShape.Report

/-!
# Inputs

An input describes the JSON values that a program accepts. It is a tree of shapes; definitions that
mention themselves go through `Input.defer`, which names a definition of a table.

* `InputStruct.build` makes a named record, possibly one that extends another.
-/

namespace JsonShape

variable [Regex.Engine]

/-- A description of accepted values. What `pattern` matches is up to the engine. -/
inductive Input
  /-- Strings. The format is a hint for the documentation. -/
  | text (format : Option String)
  | number
  /-- Numbers without a fractional part. -/
  | integer
  | boolean
  | null
  | any
  /-- Objects with these members; members that are not declared are dropped. -/
  | object (members : List (Member Input))
  /-- Values that both sides accept, the members of the child written over those of the parent. -/
  | merge (parent child : Input)
  | list (item : Input)
  /-- Values of the left side, and otherwise of the right one. -/
  | either (left right : Input)
  /-- Null, or a value of the inner shape. -/
  | optional (inner : Input)
  /-- Values of the inner shape that are members of a list. -/
  | enum (inner : Input) (values : List Json)
  /-- Values of the inner shape that match a pattern, if they are strings. -/
  | pattern (inner : Input) (regex : Regex)
  /-- Values of the inner shape that lie in an interval, if they are numbers. -/
  | inRange (inner : Input) (interval : Interval)
  /-- Values of the inner shape that a factor divides, if they are numbers. -/
  | multipleOf (inner : Input) (factor : Binary64)
  /-- Values of the inner shape, changed by a function. -/
  | mapped (inner : Input) (f : Json → Json)
  | described (inner : Input) (text : String)
  /-- The inner shape, documented as a component of this name. -/
  | referenced (inner : Input) (name : String)
  /-- The definition of this name. -/
  | defer (name : String)

namespace Input

/-- Whether a record declares a member. -/
def declares : Input → String → Bool
  | .object members, key => (Member.keys members).contains key
  | _, _ => false

mutual

/-- How many components a tree names. -/
def referenceCount : Input → Nat
  | .object members => referenceCountMembers members
  | .merge a b | .either a b => a.referenceCount + b.referenceCount
  | .list a | .optional a | .enum a _ | .pattern a _ | .inRange a _ | .multipleOf a _
  | .mapped a _ | .described a _ => a.referenceCount
  | .referenced a _ => a.referenceCount + 1
  | _ => 0

/-- How many components the members name. -/
def referenceCountMembers : List (Member Input) → Nat
  | [] => 0
  | ⟨_, value, _, _⟩ :: rest => value.referenceCount + referenceCountMembers rest

end

end Input

/-- A named record. It accepts what its inherited shape accepts, and is documented as a component
of its own name. -/
structure InputStruct where
  name : String
  /-- The members declared by the record itself. -/
  own : Input
  /-- The own members laid over those of the parent. -/
  inherited : Input

namespace InputStruct

/-- The record as an input: a component that goes by its name, `Input.referenced`. -/
def input (s : InputStruct) : Input := .referenced s.inherited s.name

/-- A named record. No key of `members` may be declared twice; a key of the parent may be declared
again. -/
def build (name : String) (parent : Option InputStruct) (members : List (Member Input)) :
    Except DefinitionError InputStruct :=
  match Member.firstRepeated? [] (Member.keys members) with
  | some key => .error (.duplicateField key)
  | none =>
    let own := Input.object members
    .ok ⟨name, own, match parent with
      | some parent => .merge parent.input own
      | none => own⟩

end InputStruct

end JsonShape
