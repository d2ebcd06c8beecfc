import JsonShape.Node.Basic

/-!
# The order of type trees

Trees of different kinds are ordered by kind, in the order in which the kinds are declared; trees of
one kind by their parts, from first to last. Lists compare like words, and texts by their
characters.

* `Node.compare` is this order.
* `Node.insertSorted` and `Node.sortDistinct` sort trees; of equal ones the last is kept.
-/

namespace JsonShape

/-- The order of lists, like that of words. -/
def compareLists {α : Type} (cmp : α → α → Ordering) : List α → List α → Ordering
  | [], [] => .eq
  | [], _ :: _ => .lt
  | _ :: _, [] => .gt
  | a :: as, b :: bs => (cmp a b).then (compareLists cmp as bs)

/-- The order of texts. -/
def compareText (a b : String) : Ordering :=
  if a < b then .lt else if a = b then .eq else .gt

/-- The place of a basic type. -/
def Scalar.rank : Scalar → Nat
  | null => 0
  | boolean => 1
  | integer => 2
  | number => 3
  | string => 4
  | date => 5
  | dateTime => 6
  | any => 7

/-- The order of leaves: basic types in front of references. -/
def Leaf.compare : Leaf → Leaf → Ordering
  | .scalar a, .scalar b => Ord.compare a.rank b.rank
  | .scalar _, .ref _ => .lt
  | .ref _, .scalar _ => .gt
  | .ref a, .ref b => compareText a b

/-- The order of floating-point numbers, in which the two zeros agree. -/
def Binary64.compare (x y : Binary64) : Ordering := Ord.compare x.units y.units

/-- The place of the kind of a literal. -/
def Literal.rank : Literal → Nat
  | null => 0
  | bool _ => 1
  | integer _ => 2
  | number _ => 3
  | string _ => 4

/-- The order of literals: by kind, then by value. -/
def Literal.compare : Literal → Literal → Ordering
  | .bool a, .bool b => Ord.compare a.toNat b.toNat
  | .integer a, .integer b => Ord.compare a.toInt b.toInt
  | .number a, .number b => a.compare b
  | .string a, .string b => compareText a b
  | a, b => Ord.compare a.rank b.rank

/-- The order of remarks: by name, then by text. -/
def compareNotes (a b : Notes) : Ordering :=
  compareLists (fun x y => (compareText x.1 y.1).then (compareText x.2 y.2)) a b

namespace Node

/-- The place of the kind of a tree. -/
def rank : Node → Nat
  | primitive .. => 0
  | object _ => 1
  | sum .. => 2
  | oneOf _ => 3
  | list _ => 4
  | enum _ => 5

mutual

/-- The order of trees. -/
def compare : Node → Node → Ordering
  | .primitive l n, .primitive l' n' => (l.compare l').then (compareNotes n n')
  | .object as, .object bs => compareAttributes as bs
  | .sum a b, .sum c d => (compare a c).then (compare b d)
  | .oneOf as, .oneOf bs => compareMembers as bs
  | .list a, .list b => compare a b
  | .enum vs, .enum ws => compareLists Literal.compare vs ws
  | a, b => Ord.compare a.rank b.rank

/-- The order of lists of attributes. -/
def compareAttributes : List (Attribute Node) → List (Attribute Node) → Ordering
  | [], [] => .eq
  | [], _ :: _ => .lt
  | _ :: _, [] => .gt
  | ⟨k, r, v, n⟩ :: as, ⟨l, s, w, m⟩ :: bs =>
    (compareText k l).then <| (Ord.compare r.toNat s.toNat).then <|
      (compare v w).then <| (compareNotes n m).then (compareAttributes as bs)

/-- The order of lists of trees. -/
def compareMembers : List Node → List Node → Ordering
  | [], [] => .eq
  | [], _ :: _ => .lt
  | _ :: _, [] => .gt
  | a :: as, b :: bs => (compare a b).then (compareMembers as bs)

end

/-- Puts a tree into a sorted list, in the place of an equal one. -/
def insertSorted (n : Node) : List Node → List Node
  | [] => [n]
  | m :: rest =>
    match compare n m with
    | .lt => n :: m :: rest
    | .eq => n :: rest
    | .gt => m :: insertSorted n rest

/-- The different trees of a list, in ascending order. -/
def sortDistinct (ns : List Node) : List Node := ns.foldl (fun s n => insertSorted n s) []

end Node

end JsonShape
