import JsonShape.Node.Render
import JsonShape.Proofs.Node.Normalize
import JsonShape.Proofs.Schema.References

/-!
# The references of a type tree

The references of a type tree are its leaves that name other types. Normal forms have the references
of the tree, those with renamed references have the new names, and the fragment of a tree refers to
nothing else.

* `Node.references` lists them from left to right.
* `mem_references_normalize` and `references_renameRefs`: what the passes do to them.
* `refersWithin_render`: what a fragment refers to.
-/

namespace JsonShape

/-- The references of a layer, given those of its children. -/
def Layer.references : Layer (List String) → List String
  | primitive (.scalar _) _ => []
  | primitive (.ref name) _ => [name]
  | object attributes => attributes.flatMap Attribute.value
  | sum left right => left ++ right
  | oneOf members => members.flatten
  | list item => item
  | enum _ => []

namespace Node

variable {f : Node → Node} {k : String}

/-- The names of other types at the leaves of `n`, from left to right. -/
def references (n : Node) : List String := n.fold Layer.references

theorem references_object (attributes : List (Attribute Node)) :
    (object attributes).references = attributes.flatMap fun a => a.value.references := by
  rw [references, fold_object, Layer.references, List.flatMap_map]
  rfl

theorem references_sum (left right : Node) :
    (sum left right).references = left.references ++ right.references := rfl

theorem references_oneOf (members : List Node) :
    (oneOf members).references = members.flatMap references := by
  rw [references, fold_oneOf, Layer.references, List.flatMap]
  rfl

theorem references_list (item : Node) : (list item).references = item.references := rfl

/-! ## Passes -/

/-- A pass `f` that keeps the references of nodes keeps those of trees. -/
theorem mem_references_transform (hf : ∀ n k, k ∈ (f n).references ↔ k ∈ n.references)
    (n : Node) : k ∈ (n.transform f).references ↔ k ∈ n.references := by
  induction n with
  | primitive leaf notes => exact hf _ k
  | object attributes ih =>
    rw [transform_object, hf, references_object, references_object, List.flatMap_map]
    simp only [List.mem_flatMap]
    exact exists_congr fun a => and_congr_right fun ha => ih a ha
  | sum left right ihl ihr =>
    rw [transform_sum, hf, references_sum, references_sum, List.mem_append, List.mem_append, ihl,
      ihr]
  | oneOf members ih =>
    rw [transform_oneOf, hf, references_oneOf, references_oneOf, List.flatMap_map]
    simp only [List.mem_flatMap]
    exact exists_congr fun n => and_congr_right fun hn => ih n hn
  | list item ih => rw [transform_list, hf, references_list, references_list, ih]
  | enum values => exact hf _ k

theorem mem_references_canonical (n : Node) : k ∈ n.canonical.references ↔ k ∈ n.references := by
  refine mem_references_transform (fun n k => ?_) n
  cases n <;> exact Iff.rfl

/-- A union has the references of its members. -/
theorem unionLike_references (k : String) : UnionLike fun n => k ∈ n.references where
  oneOf members := by rw [references_oneOf, List.mem_flatMap]
  sum left right := by rw [references_sum, List.mem_append]
  same m n h := by
    have hcanonical : m.canonical = n.canonical := by simpa [same] using h
    rw [← mem_references_canonical m, hcanonical, mem_references_canonical]

/-- A normal form has the references of the tree: `normalize` drops no type. -/
theorem mem_references_normalize (n : Node) :
    k ∈ n.normalize.references ↔ k ∈ n.references := by
  rw [normalize, mem_references_transform fun n k => (unionLike_references k).dedupOneOf n,
    mem_references_transform fun n k => (unionLike_references k).flattenSums n]

/-- `renameRefs` renames the references, one by one. -/
theorem references_renameRefs (n : Node) :
    n.renameRefs.references = n.references.map TypeName.safeName := by
  induction n with
  | primitive leaf notes => cases leaf <;> rfl
  | object attributes ih =>
    have hobject : (object attributes).renameRefs =
        object (attributes.map (Attribute.map renameRefs)) := transform_object attributes
    rw [hobject, references_object, references_object, List.flatMap_map, List.map_flatMap]
    exact List.flatMap_congr ih
  | sum left right ihl ihr =>
    have hsum : (sum left right).renameRefs = sum left.renameRefs right.renameRefs := rfl
    rw [hsum, references_sum, references_sum, ihl, ihr, List.map_append]
  | oneOf members ih =>
    have honeOf : (oneOf members).renameRefs = oneOf (members.map renameRefs) :=
      transform_oneOf members
    rw [honeOf, references_oneOf, references_oneOf, List.flatMap_map, List.map_flatMap]
    exact List.flatMap_congr ih
  | list item ih => exact ih
  | enum values => rfl

/-! ## Fragments -/

open Fragment

variable {names : List String}

theorem refersWithin_of_remarks {ks : Dict Json} (h : ∀ key ∈ schemaKeys, ks.get? key = none) :
    RefersWithin names (.object ks) :=
  fun _ hr => absurd hr (not_refers_of_remarks h)

theorem get?_keyword_of_mem {key name : String} (hname : name ∉ schemaKeys)
    (hkey : key ∈ schemaKeys) (text : Option String) :
    Dict.get? (keyword name text) key = none := by
  have hne : name ≠ key := fun h => hname (h ▸ hkey)
  cases text with
  | none => rfl
  | some t => simp [keyword, Dict.get?, hne]

theorem refersWithin_renderScalar (s : Scalar) (notes : Notes) :
    RefersWithin names (renderScalar s notes) := by
  refine refersWithin_of_remarks fun key hkey => ?_
  rw [Dict.get?_append, Dict.get?_append, get?_keyword_of_mem (by simp [schemaKeys, refKey]) hkey,
    get?_keyword_of_mem (by simp [schemaKeys, refKey]) hkey,
    get?_keyword_of_mem (by simp [schemaKeys, refKey]) hkey]
  rfl

theorem refersWithin_describe {notes : Notes} {fragment : Json} (h : RefersWithin names fragment) :
    RefersWithin names (describe notes fragment) := by
  unfold describe
  split
  · exact fun target hr => h target hr.of_described
  · exact h

theorem refersWithin_nullFragment : RefersWithin names nullFragment :=
  refersWithin_of_remarks (by simp [schemaKeys, refKey, Dict.get?])

/-- The null of a union, and what is said of it, adds no reference. -/
theorem refersWithin_renderOneOf {members : List Json}
    (h : ∀ m ∈ members, RefersWithin names m) : RefersWithin names (renderOneOf members) := by
  have hnullable : ∀ core, RefersWithin names core → RefersWithin names
      (if members.any (fun m => m.same nullFragment) then nullable core else core) := by
    intro core hcore
    split
    · exact fun target hr => hcore target hr.of_nullable
    · exact hcore
  have hfilter : ∀ m ∈ members.filter (fun m => !m.same nullFragment), RefersWithin names m :=
    fun m hm => h m (List.mem_filter.1 hm).1
  unfold renderOneOf
  simp only
  split
  · exact refersWithin_nullFragment
  · next single heq => exact hnullable single (hfilter single (heq ▸ .head _))
  · refine hnullable _ fun target hr => ?_
    obtain ⟨g, hg, hr⟩ := hr.of_singleton (by simp [refKey])
    exact hfilter g hg target hr

theorem refersWithin_renderEnum (values : List Json) : RefersWithin names (renderEnum values) := by
  refine refersWithin_of_remarks fun key hkey => ?_
  rw [Dict.get?_append, Dict.get?_append, get?_keyword_of_mem (by simp [schemaKeys, refKey]) hkey]
  simp only [schemaKeys, List.mem_cons, List.not_mem_nil, or_false] at hkey
  rcases hkey with rfl | rfl | rfl | rfl | rfl <;> split <;> rfl

theorem refersWithin_renderObject {attributes : List (Attribute Json)}
    (h : ∀ a ∈ attributes, RefersWithin names a.value) :
    RefersWithin names (renderObject attributes) := by
  intro target hr
  obtain ⟨f, hf, hr⟩ := hr.of_object
  obtain ⟨e, he, rfl⟩ := List.mem_map.1 hf
  obtain ⟨a, ha, rfl⟩ := List.mem_map.1 (Dict.mem_of_mem_ofList he)
  exact refersWithin_describe (h a ha) target hr

/-- **The fragment of a tree refers to what the tree does**: if all references of `n` are among
`names`, those of `n.render` are. -/
theorem refersWithin_render (n : Node) (h : n.references ⊆ names) :
    RefersWithin names n.render := by
  induction n with
  | primitive leaf notes =>
    cases leaf with
    | scalar s => exact refersWithin_renderScalar s notes
    | ref name =>
      refine refersWithin_describe fun target hr => ⟨name, h (.head _), refers_reference.1 hr⟩
  | object attributes ih =>
    have hobject : (object attributes).render =
        renderObject (attributes.map (Attribute.map render)) := fold_object _ attributes
    rw [references_object] at h
    rw [hobject]
    refine refersWithin_renderObject fun a ha => ?_
    obtain ⟨b, hb, rfl⟩ := List.mem_map.1 ha
    exact ih b hb fun k hk => h (List.mem_flatMap.2 ⟨b, hb, hk⟩)
  | sum left right ihl ihr =>
    have hleft := ihl fun k hk => h (List.mem_append_left _ hk)
    have hright := ihr fun k hk => h (List.mem_append_right _ hk)
    exact refersWithin_renderOneOf
      (List.forall_mem_cons.2 ⟨hleft, List.forall_mem_singleton.2 hright⟩)
  | oneOf members ih =>
    have honeOf : (oneOf members).render = renderOneOf (members.map render) := fold_oneOf _ members
    rw [references_oneOf] at h
    rw [honeOf]
    refine refersWithin_renderOneOf fun m hm => ?_
    obtain ⟨n, hn, rfl⟩ := List.mem_map.1 hm
    exact ih n hn fun k hk => h (List.mem_flatMap.2 ⟨n, hn, hk⟩)
  | list item ih => exact fun target hr => ih h target hr.of_array
  | enum values => exact refersWithin_renderEnum _

end Node

end JsonShape
