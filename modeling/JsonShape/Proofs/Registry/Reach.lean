import JsonShape.Proofs.Induction
import Mathlib.Logic.Relation

/-!
# Which types mention which

A description mentions a type where the type's name stands in it, at any depth. Mentions are the
edges of a graph on the names of a registry; `Registry.Reaches` is reachability in it.

* `TypeDef.parts` lists the descriptions inside one another.
* `TypeDef.mentioned` lists the names among them (`mem_mentioned`).
-/

namespace JsonShape

namespace TypeDef

/-! ## Parts -/

mutual

/-- The description and every description inside it. -/
def parts : TypeDef → List TypeDef
  | .struct keys => .struct keys :: keyParts keys
  | .sum left right => .sum left right :: (parts left ++ parts right)
  | .constrained base rules => .constrained base rules :: parts base
  | .array member => .array member :: parts member
  | .enum values => [.enum values]
  | .scalar s => [.scalar s]
  | .named name => [.named name]

/-- The descriptions inside the types of some keys. -/
def keyParts : List (Member TypeDef) → List TypeDef
  | [] => []
  | ⟨_, type, _, _⟩ :: rest => parts type ++ keyParts rest

end

theorem keyParts_eq (keys : List (Member TypeDef)) :
    keyParts keys = keys.flatMap fun m => m.value.parts := by
  induction keys with
  | nil => rfl
  | cons m rest ih => exact congrArg (m.value.parts ++ ·) ih

theorem mem_keyParts {p : TypeDef} {keys : List (Member TypeDef)} :
    p ∈ keyParts keys ↔ ∃ m ∈ keys, p ∈ m.value.parts := by
  rw [keyParts_eq, List.mem_flatMap]

/-- The description names the type `name`, at any depth. -/
def Mentions (d : TypeDef) (name : String) : Prop := .named name ∈ d.parts

/-- A description that is no name mentions what stands in the descriptions inside it. -/
theorem named_mem_cons {d : TypeDef} {inside : List TypeDef} {name : String}
    (h : d ≠ .named name) : .named name ∈ d :: inside ↔ .named name ∈ inside := by
  rw [List.mem_cons, or_iff_right (Ne.symm h)]

@[simp] theorem mentions_struct {keys : List (Member TypeDef)} {name : String} :
    (struct keys).Mentions name ↔ ∃ m ∈ keys, m.value.Mentions name := by
  change named name ∈ struct keys :: keyParts keys ↔ _
  rw [named_mem_cons (by simp), mem_keyParts]
  rfl

@[simp] theorem mentions_sum {left right : TypeDef} {name : String} :
    (sum left right).Mentions name ↔ left.Mentions name ∨ right.Mentions name := by
  change named name ∈ sum left right :: (left.parts ++ right.parts) ↔ _
  rw [named_mem_cons (by simp), List.mem_append]
  rfl

@[simp] theorem mentions_constrained {base : TypeDef} {rules : List Constraint} {name : String} :
    (constrained base rules).Mentions name ↔ base.Mentions name := by
  change named name ∈ constrained base rules :: base.parts ↔ _
  rw [named_mem_cons (by simp)]
  rfl

@[simp] theorem mentions_array {member : TypeDef} {name : String} :
    (array member).Mentions name ↔ member.Mentions name := by
  change named name ∈ array member :: member.parts ↔ _
  rw [named_mem_cons (by simp)]
  rfl

@[simp] theorem not_mentions_enum {values : List Literal} {name : String} :
    ¬(enum values).Mentions name := by
  change named name ∉ [enum values]
  simp

@[simp] theorem not_mentions_scalar {s : Scalar} {name : String} : ¬(scalar s).Mentions name := by
  change named name ∉ [scalar s]
  simp

@[simp] theorem mentions_named {target name : String} :
    (named target).Mentions name ↔ name = target := by
  change named name ∈ [named target] ↔ _
  rw [List.mem_singleton, named.injEq]

/-! ## Names in a description -/

/-- The name that a description consists of. -/
def name? : TypeDef → Option String
  | named name => some name
  | _ => none

theorem name?_eq_some_iff {d : TypeDef} {name : String} :
    d.name? = some name ↔ d = .named name := by
  cases d with
  | named target => rw [name?, Option.some.injEq, named.injEq]
  | _ => exact iff_of_false (by simp [name?]) (by simp)

/-- The names in a description, from left to right. -/
def mentioned (d : TypeDef) : List String := d.parts.filterMap name?

theorem mem_mentioned {d : TypeDef} {name : String} : name ∈ d.mentioned ↔ d.Mentions name := by
  rw [mentioned, List.mem_filterMap]
  simp only [name?_eq_some_iff, exists_eq_right]
  rfl

theorem mentioned_struct (keys : List (Member TypeDef)) :
    (struct keys).mentioned = keys.flatMap fun m => m.value.mentioned := by
  change (struct keys :: keyParts keys).filterMap name? = _
  rw [List.filterMap_cons_none rfl, keyParts_eq, List.filterMap_flatMap]
  rfl

theorem mentioned_sum (left right : TypeDef) :
    (sum left right).mentioned = left.mentioned ++ right.mentioned := by
  change (sum left right :: (left.parts ++ right.parts)).filterMap name? = _
  rw [List.filterMap_cons_none rfl, List.filterMap_append]
  rfl

end TypeDef

namespace Registry

/-- The description of the first type mentions the second. -/
def Mentions (registry : Registry) (a b : String) : Prop :=
  ∃ d, registry.get? a = some d ∧ d.Mentions b

/-- One type leads to another by mentions, if only by none: the closure of `Mentions`. -/
def Reaches (registry : Registry) : String → String → Prop :=
  Relation.ReflTransGen registry.Mentions

end Registry

end JsonShape
