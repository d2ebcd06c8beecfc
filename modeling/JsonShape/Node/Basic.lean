import JsonShape.Json.Basic

/-!
# Type trees

A type tree is the shape of one type, before it is documented. Its leaves are scalars, references to
named types and enumerations.

* `Node.fold` folds a tree from the leaves up: an algebra sees one `Layer` whose children have been
  folded.
* `Node.transform` is the fold that makes a tree again.
* `Node.same` is structural equality, in which the two floating-point zeros agree.
-/

namespace JsonShape

/-- A basic type. -/
inductive Scalar
  | null
  | boolean
  | integer
  | number
  | string
  | date
  | dateTime
  /-- No constraint at all. -/
  | any
  deriving DecidableEq

namespace Scalar

/-- The basic types in their order. -/
def all : List Scalar := [null, boolean, integer, number, string, date, dateTime, any]

/-- The name of a basic type in type descriptions. -/
def tag : Scalar → String
  | null => "null"
  | boolean => "boolean"
  | integer => "integer"
  | number => "number"
  | string => "string"
  | date => "date"
  | dateTime => "date_time"
  | any => "any"

/-- The basic type of this name. -/
def ofTag? (name : String) : Option Scalar := all.find? fun s => s.tag = name

/-- The type keyword of its documentation. -/
def typeName? : Scalar → Option String
  | null => some "null"
  | boolean => some "boolean"
  | integer => some "integer"
  | number => some "number"
  | string | date | dateTime => some "string"
  | any => none

/-- The format keyword of its documentation. -/
def format? : Scalar → Option String
  | date => some "date"
  | dateTime => some "date-time"
  | _ => none

end Scalar

/-- A basic type, or the name of another type. -/
inductive Leaf
  | scalar (s : Scalar)
  | ref (name : String)
  deriving DecidableEq

/-- A member of an enumeration. -/
inductive Literal
  | null
  | bool (b : Bool)
  | integer (n : Int64)
  | number (x : Binary64)
  | string (s : String)
  deriving DecidableEq

namespace Literal

/-- The literal as a JSON value. -/
def toJson : Literal → Json
  | null => .null
  | bool b => .bool b
  | integer n => .number (.int n.toInt)
  | number x => .number (.float x)
  | string s => .string s

/-- The literal of a JSON value. Whole numbers that are not signed numbers of 64 bits are taken to
be floating-point numbers; arrays and objects are no literals. -/
def ofJson? : Json → Option Literal
  | .null => some .null
  | .bool b => some (.bool b)
  | .number (.int n) =>
    if Number.leastInt ≤ n ∧ n ≤ Number.greatestSigned then some (.integer (.ofInt n))
    else (Binary64.ofInt? n).map .number
  | .number (.float x) => some (.number x)
  | .string s => some (.string s)
  | .array _ | .object _ => none

/-- The form in which the two floating-point zeros coincide. -/
def canonical : Literal → Literal
  | number x => if x.isZero then number .zero else number x
  | l => l

end Literal

/-- Remarks by name, sorted. -/
abbrev Notes := Dict String

/-- The name of the remark that describes a type. -/
def descriptionNote : String := "description"

/-- One member of an object type. -/
structure Attribute (α : Type) where
  key : String
  required : Bool
  value : α
  notes : Notes
  deriving DecidableEq

/-- The member with another value. -/
def Attribute.map {α β : Type} (f : α → β) (a : Attribute α) : Attribute β :=
  ⟨a.key, a.required, f a.value, a.notes⟩

/-- A type tree. -/
inductive Node
  | primitive (leaf : Leaf) (notes : Notes)
  | object (attributes : List (Attribute Node))
  /-- A union of two types, as it is declared. -/
  | sum (left right : Node)
  /-- A union of any number of types. -/
  | oneOf (members : List Node)
  | list (item : Node)
  | enum (values : List Literal)

/-- One layer of a tree, with something in the place of its children. -/
inductive Layer (α : Type)
  | primitive (leaf : Leaf) (notes : Notes)
  | object (attributes : List (Attribute α))
  | sum (left right : α)
  | oneOf (members : List α)
  | list (item : α)
  | enum (values : List Literal)

/-- The tree of a layer whose children are trees. -/
def Layer.toNode : Layer Node → Node
  | primitive leaf notes => .primitive leaf notes
  | object attributes => .object attributes
  | sum left right => .sum left right
  | oneOf members => .oneOf members
  | list item => .list item
  | enum values => .enum values

namespace Node

/-- The tree of a basic type. -/
def scalar (s : Scalar) : Node := primitive (.scalar s) []

/-- The tree of a named type. -/
def reference (name : String) : Node := primitive (.ref name) []

/-- Whether the tree is the type of null. -/
def isNull : Node → Bool
  | primitive (.scalar .null) _ => true
  | _ => false

/-! ## Folding -/

mutual

/-- Folds a tree from the leaves up. -/
def fold {α : Type} (algebra : Layer α → α) : Node → α
  | .primitive leaf notes => algebra (.primitive leaf notes)
  | .object attributes => algebra (.object (foldAttributes algebra attributes))
  | .sum left right => algebra (.sum (fold algebra left) (fold algebra right))
  | .oneOf members => algebra (.oneOf (foldMembers algebra members))
  | .list item => algebra (.list (fold algebra item))
  | .enum values => algebra (.enum values)

/-- Folds the members of an object type. -/
def foldAttributes {α : Type} (algebra : Layer α → α) :
    List (Attribute Node) → List (Attribute α)
  | [] => []
  | ⟨key, required, value, notes⟩ :: rest =>
    ⟨key, required, fold algebra value, notes⟩ :: foldAttributes algebra rest

/-- Folds the members of a union. -/
def foldMembers {α : Type} (algebra : Layer α → α) : List Node → List α
  | [] => []
  | n :: rest => fold algebra n :: foldMembers algebra rest

end

/-- Changes a tree from the leaves up: `f` sees each node after its children were changed. -/
def transform (f : Node → Node) (n : Node) : Node := n.fold fun layer => f layer.toNode

/-- Changes the leaf of a tree that is one. -/
def mapLeaf (f : Leaf → Leaf) : Node → Node
  | primitive leaf notes => primitive (f leaf) notes
  | n => n

/-! ## Equality -/

mutual

/-- Decides whether two trees are the same term. -/
def decEq : (a b : Node) → Decidable (a = b)
  | .primitive l n, .primitive l' n' => decidable_of_iff (l = l' ∧ n = n') (by simp)
  | .object as, .object bs =>
    match decEqAttributes as bs with
    | isTrue h => isTrue (h ▸ rfl)
    | isFalse h => isFalse fun e => h (by injection e)
  | .sum a b, .sum c d =>
    match decEq a c, decEq b d with
    | isTrue h, isTrue h' => isTrue (by rw [h, h'])
    | isFalse h, _ => isFalse (by simp [h])
    | _, isFalse h => isFalse (by simp [h])
  | .oneOf as, .oneOf bs =>
    match decEqMembers as bs with
    | isTrue h => isTrue (h ▸ rfl)
    | isFalse h => isFalse fun e => h (by injection e)
  | .list a, .list b =>
    match decEq a b with
    | isTrue h => isTrue (h ▸ rfl)
    | isFalse h => isFalse fun e => h (by injection e)
  | .enum vs, .enum ws => decidable_of_iff (vs = ws) (by simp)
  | .primitive .., .object _ | .primitive .., .sum .. | .primitive .., .oneOf _
  | .primitive .., .list _ | .primitive .., .enum _ | .object _, .primitive ..
  | .object _, .sum .. | .object _, .oneOf _ | .object _, .list _ | .object _, .enum _
  | .sum .., .primitive .. | .sum .., .object _ | .sum .., .oneOf _ | .sum .., .list _
  | .sum .., .enum _ | .oneOf _, .primitive .. | .oneOf _, .object _ | .oneOf _, .sum ..
  | .oneOf _, .list _ | .oneOf _, .enum _ | .list _, .primitive .. | .list _, .object _
  | .list _, .sum .. | .list _, .oneOf _ | .list _, .enum _ | .enum _, .primitive ..
  | .enum _, .object _ | .enum _, .sum .. | .enum _, .oneOf _ | .enum _, .list _ =>
    isFalse (by intro h; cases h)

/-- Decides whether two lists of attributes are the same. -/
def decEqAttributes : (as bs : List (Attribute Node)) → Decidable (as = bs)
  | [], [] => isTrue rfl
  | [], _ :: _ | _ :: _, [] => isFalse (by simp)
  | ⟨k, r, v, n⟩ :: as, ⟨l, s, w, m⟩ :: bs =>
    if hk : k = l ∧ r = s ∧ n = m then
      match decEq v w, decEqAttributes as bs with
      | isTrue h, isTrue h' => isTrue (by rw [hk.1, hk.2.1, hk.2.2, h, h'])
      | isFalse h, _ => isFalse (by simp [h])
      | _, isFalse h => isFalse (by simp [h])
    else isFalse (by
      simp only [List.cons.injEq, Attribute.mk.injEq]
      exact fun h => hk ⟨h.1.1, h.1.2.1, h.1.2.2.2⟩)

/-- Decides whether two lists of trees are the same. -/
def decEqMembers : (as bs : List Node) → Decidable (as = bs)
  | [], [] => isTrue rfl
  | [], _ :: _ | _ :: _, [] => isFalse (by simp)
  | a :: as, b :: bs =>
    match decEq a b, decEqMembers as bs with
    | isTrue h, isTrue h' => isTrue (by rw [h, h'])
    | isFalse h, _ => isFalse (by simp [h])
    | _, isFalse h => isFalse (by simp [h])

end

instance : DecidableEq Node := decEq

/-- The form that equal trees share: one floating-point zero. -/
def canonical (n : Node) : Node :=
  n.transform fun
    | .enum values => .enum (values.map Literal.canonical)
    | n => n

/-- Structural equality, but for the sign of zero: the `canonical` forms are the same term. -/
def same (a b : Node) : Bool := a.canonical = b.canonical

@[simp] theorem same_self (a : Node) : a.same a := by simp [same]

theorem same_symm {a b : Node} (h : a.same b) : b.same a := by
  simp only [same, decide_eq_true_eq] at h ⊢
  exact h.symm

theorem same_trans {a b c : Node} (h : a.same b) (h' : b.same c) : a.same c := by
  simp only [same, decide_eq_true_eq] at h h' ⊢
  exact h.trans h'

end Node

end JsonShape
