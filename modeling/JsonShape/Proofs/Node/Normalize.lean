import JsonShape.Node.Normalize
import JsonShape.Proofs.Distinct
import JsonShape.Proofs.Induction

/-!
# What normal forms keep

The passes that make normal forms only rearrange unions: they splice the members of inner ones, drop
members that are equal to others and leave a single one as it is. So they keep every property that a
union has exactly if one of its members has it, and that equal trees share (`Node.UnionLike`).

* `Node.fold_object`, `Node.transform_object`, ...: folds and transformations node by node.
* `Node.UnionLike.flattenSums` and `Node.UnionLike.dedupOneOf`: each pass, on one node.
-/

namespace JsonShape

namespace Node

variable {f : Node → Node}

/-! ## Folds -/

theorem foldAttributes_eq {α : Type} (algebra : Layer α → α) (attributes : List (Attribute Node)) :
    foldAttributes algebra attributes = attributes.map (Attribute.map (fold algebra)) := by
  induction attributes with
  | nil => rfl
  | cons a rest ih => exact congrArg (a.map (fold algebra) :: ·) ih

theorem foldMembers_eq {α : Type} (algebra : Layer α → α) (members : List Node) :
    foldMembers algebra members = members.map (fold algebra) := by
  induction members with
  | nil => rfl
  | cons n rest ih => exact congrArg (n.fold algebra :: ·) ih

theorem fold_object {α : Type} (algebra : Layer α → α) (attributes : List (Attribute Node)) :
    (object attributes).fold algebra =
      algebra (.object (attributes.map (Attribute.map (fold algebra)))) :=
  congrArg (fun as => algebra (.object as)) (foldAttributes_eq algebra attributes)

theorem fold_oneOf {α : Type} (algebra : Layer α → α) (members : List Node) :
    (oneOf members).fold algebra = algebra (.oneOf (members.map (fold algebra))) :=
  congrArg (fun ns => algebra (.oneOf ns)) (foldMembers_eq algebra members)

theorem transform_object (attributes : List (Attribute Node)) : (object attributes).transform f =
    f (object (attributes.map (Attribute.map (transform f)))) :=
  fold_object _ attributes

theorem transform_sum (left right : Node) :
    (sum left right).transform f = f (sum (left.transform f) (right.transform f)) := rfl

theorem transform_oneOf (members : List Node) :
    (oneOf members).transform f = f (oneOf (members.map (transform f))) :=
  fold_oneOf _ members

theorem transform_list (item : Node) :
    (list item).transform f = f (list (item.transform f)) := rfl

theorem transform_enum (values : List Literal) :
    (enum values).transform f = f (enum values) := rfl

/-! ## Different trees -/

theorem addsNew_addDistinct : AddsNew addDistinct fun m n => m.same n :=
  .of_any ⟨same_self, same_symm, same_trans⟩

theorem mem_of_mem_distinct {ns : List Node} {m : Node} (h : m ∈ distinct ns) : m ∈ ns :=
  (addsNew_addDistinct.mem_of_mem_foldl h).resolve_left List.not_mem_nil

/-! ## Unions -/

/-- A property `P` that a union has exactly if one of its members has it, and that trees share that
are the `same`. -/
structure UnionLike (P : Node → Prop) : Prop where
  oneOf : ∀ members, P (.oneOf members) ↔ ∃ n ∈ members, P n
  sum : ∀ left right, P (.sum left right) ↔ P left ∨ P right
  same : ∀ m n : Node, m.same n → (P m ↔ P n)

namespace UnionLike

variable {P : Node → Prop}

theorem alternatives (h : UnionLike P) (n : Node) : (∃ m ∈ n.alternatives, P m) ↔ P n := by
  cases n with
  | oneOf members => rw [Node.alternatives, h.oneOf]
  | _ => simp [Node.alternatives]

theorem flattenSums (h : UnionLike P) (n : Node) : P n.flattenSums ↔ P n := by
  cases n with
  | sum left right =>
    rw [Node.flattenSums, h.oneOf, h.sum, ← h.alternatives left, ← h.alternatives right]
    simp [or_and_right, exists_or]
  | _ => rfl

theorem distinct (h : UnionLike P) (ns : List Node) :
    (∃ n ∈ distinct ns, P n) ↔ ∃ n ∈ ns, P n := by
  simpa [Node.distinct] using addsNew_addDistinct.exists_mem_foldl h.same [] ns

theorem ofAlternatives (h : UnionLike P) (ns : List Node) :
    P (ofAlternatives ns) ↔ ∃ n ∈ ns, P n := by
  unfold Node.ofAlternatives
  split
  · simp
  · exact h.oneOf _

theorem dedupOneOf (h : UnionLike P) (n : Node) : P n.dedupOneOf ↔ P n := by
  cases n with
  | oneOf members =>
    rw [Node.dedupOneOf, h.ofAlternatives, h.distinct, h.oneOf]
    simp only [List.mem_flatMap]
    constructor
    · rintro ⟨m, ⟨n, hn, hm⟩, hmP⟩
      exact ⟨n, hn, (h.alternatives n).1 ⟨m, hm, hmP⟩⟩
    · rintro ⟨n, hn, hnP⟩
      obtain ⟨m, hm, hmP⟩ := (h.alternatives n).2 hnP
      exact ⟨m, ⟨n, hn, hm⟩, hmP⟩
  | _ => rfl

end UnionLike

end Node

end JsonShape
