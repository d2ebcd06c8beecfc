import JsonShape.Input.Call
import JsonShape.Proofs.Json.Canonical
import JsonShape.Proofs.Node.Normalize

/-!
# The values of a type tree

A type tree stands for a set of values, given the values of the types that it names. This is a fold
of the tree, and every pass over trees keeps it.

* `Node.Admits` says that a value is one of a tree.
* `admits_transform`: a pass that keeps the values node by node keeps those of trees.
* `admits_normalize` and `admits_renameRefs`: normal forms have the same values, and so have renamed
  references if the names are read accordingly.
-/

namespace JsonShape

/-- The values of a basic type. -/
def Scalar.admits : Scalar → Json → Bool
  | null => Json.isNull
  | boolean => Json.isBoolean
  | integer => Json.isInteger
  | number => Json.isNumber
  | string | date | dateTime => Json.isString
  | any => fun _ => true

/-- The values of a layer, given those of its children and, as `named`, of named types. -/
def Layer.Admits (named : String → Json → Prop) : Layer (Json → Prop) → Json → Prop
  | primitive (.scalar s) _, v => s.admits v
  | primitive (.ref name) _, v => named name v
  | object attributes, v => ∃ ms, v = .object ms ∧ ∀ a ∈ attributes,
      (a.required → Dict.contains ms a.key) ∧ ∀ x, Dict.get? ms a.key = some x → a.value x
  | sum left right, v => left v ∨ right v
  | oneOf members, v => ∃ p ∈ members, p v
  | list item, v => ∃ xs, v = .array xs ∧ ∀ x ∈ xs, item x
  | enum values, v => Input.isMember (values.map Literal.toJson) v

namespace Node

variable {named : String → Json → Prop} {f : Node → Node} {v : Json}

/-! ## Values -/

/-- `v` is one of the values of `n`, given the values of named types: those that normalization and
rendering must keep. -/
def Admits (named : String → Json → Prop) (n : Node) : Json → Prop := n.fold (Layer.Admits named)

@[simp] theorem admits_scalar {s : Scalar} {notes : Notes} :
    (primitive (.scalar s) notes).Admits named v ↔ s.admits v := Iff.rfl

@[simp] theorem admits_ref {name : String} {notes : Notes} :
    (primitive (.ref name) notes).Admits named v ↔ named name v := Iff.rfl

theorem admits_object {attributes : List (Attribute Node)} :
    (object attributes).Admits named v ↔ ∃ ms, v = .object ms ∧ ∀ a ∈ attributes,
      (a.required → Dict.contains ms a.key) ∧
        ∀ x, Dict.get? ms a.key = some x → a.value.Admits named x := by
  rw [Admits, fold_object]
  simp only [Layer.Admits, List.forall_mem_map]
  rfl

@[simp] theorem admits_sum {left right : Node} :
    (sum left right).Admits named v ↔ left.Admits named v ∨ right.Admits named v := Iff.rfl

theorem admits_oneOf {members : List Node} :
    (oneOf members).Admits named v ↔ ∃ n ∈ members, n.Admits named v := by
  rw [Admits, fold_oneOf]
  simp only [Layer.Admits, List.mem_map]
  constructor
  · rintro ⟨_, ⟨n, hn, rfl⟩, h⟩
    exact ⟨n, hn, h⟩
  · rintro ⟨n, hn, h⟩
    exact ⟨_, ⟨n, hn, rfl⟩, h⟩

theorem admits_list {item : Node} :
    (list item).Admits named v ↔ ∃ xs, v = .array xs ∧ ∀ x ∈ xs, item.Admits named x := Iff.rfl

theorem admits_enum {values : List Literal} :
    (enum values).Admits named v ↔ Input.isMember (values.map Literal.toJson) v := Iff.rfl

/-! ## Passes -/

/-- Whether the tree is a leaf other than an enumeration. -/
def isPrimitive : Node → Bool
  | primitive .. => true
  | _ => false

/-- **A pass that keeps the values of nodes keeps those of trees**, by `Node.transform`. At the
leaves the names may be read differently before (`named`) and after (`named'`). -/
theorem admits_transform {named' : String → Json → Prop}
    (hleaf : ∀ leaf notes v, (f (primitive leaf notes)).Admits named' v ↔
      (primitive leaf notes).Admits named v)
    (hnode : ∀ n : Node, n.isPrimitive = false →
      ∀ v, (f n).Admits named' v ↔ n.Admits named' v)
    (n : Node) (v : Json) : (n.transform f).Admits named' v ↔ n.Admits named v := by
  induction n generalizing v with
  | primitive leaf notes => exact hleaf leaf notes v
  | object attributes ih =>
    rw [transform_object, hnode _ rfl, admits_object, admits_object]
    simp only [List.forall_mem_map]
    refine exists_congr fun ms => and_congr_right fun _ => forall₂_congr fun a ha => ?_
    exact and_congr_right fun _ => forall₂_congr fun x _ => ih a ha x
  | sum left right ihl ihr =>
    rw [transform_sum, hnode _ rfl, admits_sum, admits_sum, ihl, ihr]
  | oneOf members ih =>
    rw [transform_oneOf, hnode _ rfl, admits_oneOf, admits_oneOf]
    simp only [List.mem_map, exists_exists_and_eq_and]
    exact exists_congr fun n => and_congr_right fun hn => ih n hn v
  | list item ih =>
    rw [transform_list, hnode _ rfl, admits_list, admits_list]
    exact exists_congr fun xs => and_congr_right fun _ => forall₂_congr fun x _ => ih x
  | enum values => rw [transform_enum, hnode _ rfl, admits_enum, admits_enum]

/-- A pass that keeps the values of every node, the leaves included. -/
theorem admits_transform_of_forall (h : ∀ n v, (f n).Admits named v ↔ n.Admits named v) (n : Node)
    (v : Json) : (n.transform f).Admits named v ↔ n.Admits named v :=
  admits_transform (fun _ _ v => h _ v) (fun n _ v => h n v) n v

theorem sameMember_canonical (l : Literal) (v : Json) :
    l.canonical.toJson.sameMember v = l.toJson.sameMember v := by
  cases l with
  | number x =>
    rw [← Json.sameMember_canonical (Literal.number x).toJson,
      ← Json.sameMember_canonical (Literal.number x).canonical.toJson]
    have hcanonical : (Literal.number x).canonical.toJson.canonical =
        (Literal.number x).toJson.canonical := by
      by_cases hx : x.isZero
      · simp only [Literal.canonical, hx, if_true, Literal.toJson, Json.canonical,
          Number.canonical]
        rfl
      · simp [Literal.canonical, hx]
    rw [hcanonical]
  | _ => rfl

theorem admits_canonical (n : Node) (v : Json) :
    n.canonical.Admits named v ↔ n.Admits named v := by
  refine admits_transform_of_forall (fun n v => ?_) n v
  cases n with
  | enum values =>
    simp only [admits_enum, Input.isMember, List.map_map, List.any_map, Function.comp_def,
      sameMember_canonical]
  | _ => rfl

/-- Equal trees have the same values. -/
theorem admits_of_same {m n : Node} (h : m.same n) : m.Admits named v ↔ n.Admits named v := by
  rw [same, decide_eq_true_eq] at h
  rw [← admits_canonical m, h, admits_canonical]

/-- A union has the values of its members. -/
theorem unionLike_admits : UnionLike fun n => n.Admits named v where
  oneOf _ := admits_oneOf
  sum _ _ := admits_sum
  same _ _ := admits_of_same

/-- **A normal form has the values of the tree**: `normalize` neither admits nor drops a value. -/
theorem admits_normalize (n : Node) (v : Json) : n.normalize.Admits named v ↔ n.Admits named v := by
  rw [normalize, admits_transform_of_forall fun n v => unionLike_admits.dedupOneOf n,
    admits_transform_of_forall fun n v => unionLike_admits.flattenSums n]

/-- References that `renameRefs` has renamed are read under their new names. -/
theorem admits_renameRefs (n : Node) (v : Json) : n.renameRefs.Admits named v ↔
    n.Admits (fun name => named (TypeName.safeName name)) v := by
  refine admits_transform (fun leaf notes v => ?_) (fun n hn v => ?_) n v
  · cases leaf <;> rfl
  · cases n with
    | primitive leaf notes => simp [isPrimitive] at hn
    | _ => rfl

end Node

end JsonShape
