import JsonShape.Proofs.Node.Choices

/-!
# Trees in normal form

In a tree in normal form no union is declared two by two, and every other union lists two or more
different trees that are no unions themselves, or none at all (`Node.Normal`). Normalization makes
such a tree of every tree and leaves a tree alone that is one, so the trees that it reaches are
exactly those that it does not change (`Node.normalize_reaches_normal_form`).

The first holds by induction on choices (`Node.choices_induction`), as a normal form is made of the
normal forms of its choices; the second by induction on the tree in normal form, in which every
union is the list of its own choices.
-/

namespace JsonShape

namespace Node

variable {ns : List Node} {n : Node}

/-! ## Induction on choices -/

/-- Induction on trees in which a union is known by its choices, at whatever depth they stand. -/
theorem choices_induction {motive : Node → Prop}
    (primitive : ∀ leaf notes, motive (.primitive leaf notes))
    (object : ∀ attributes, (∀ a ∈ attributes, motive a.value) → motive (.object attributes))
    (list : ∀ item, motive item → motive (.list item)) (enum : ∀ values, motive (.enum values))
    (union : ∀ n, n.isUnion → (∀ c ∈ n.choices, motive c) → motive n) (n : Node) : motive n := by
  have hwhole : ∀ n, (∀ c ∈ n.choices, motive c) → motive n := by
    intro n h
    cases hn : n.isUnion with
    | true => exact union n hn h
    | false =>
      cases n with
      | sum _ _ | oneOf _ => cases hn
      | primitive _ _ | object _ | list _ | enum _ => exact h _ (.head _)
  refine hwhole n ?_
  induction n with
  | primitive leaf notes => exact List.forall_mem_singleton.2 (primitive leaf notes)
  | object attributes ih =>
    exact List.forall_mem_singleton.2 (object attributes fun a ha => hwhole _ (ih a ha))
  | sum left right ihl ihr =>
    rw [choices_sum]
    exact List.forall_mem_append.2 ⟨ihl, ihr⟩
  | oneOf members ih =>
    intro c hc
    rw [choices_oneOf] at hc
    obtain ⟨m, hm, hc⟩ := List.mem_flatMap.1 hc
    exact ih m hm c hc
  | list item ih => exact List.forall_mem_singleton.2 (list item (hwhole item ih))
  | enum values => exact List.forall_mem_singleton.2 (enum values)

/-- A tree that is no union is its only choice. -/
theorem choices_eq_singleton (h : n.isUnion = false) : n.choices = [n] := by
  cases n with
  | sum _ _ | oneOf _ => cases h
  | primitive _ _ | object _ | list _ | enum _ => rfl

/-- Trees that are no unions are the choices of their union. -/
theorem choices_oneOf_of_isUnion_eq_false (h : ∀ n ∈ ns, n.isUnion = false) :
    (oneOf ns).choices = ns := by
  rw [choices_oneOf, List.flatMap_congr fun n hn => choices_eq_singleton (h n hn),
    List.flatMap_singleton']

/-! ## Different trees -/

/-- What is kept of a list is different, one by one. -/
theorem pairwise_distinct (ns : List Node) :
    (distinct ns).Pairwise fun m n => m.same n = false := by
  rw [distinct_eq_foldl]
  simpa using addsNew_addDistinct.pairwise_foldl .nil ns

/-- Of different trees all are kept. -/
theorem distinct_of_pairwise (h : ns.Pairwise fun m n => m.same n = false) : distinct ns = ns :=
  addsNew_addDistinct.foldl_of_pairwise (l := []) (by simpa using h)

/-! ## Normal forms -/

/-- A tree in normal form: no `sum`, and every `oneOf` with no member or at least two, which are no
unions and all different. -/
inductive Normal : Node → Prop
  | primitive (leaf : Leaf) (notes : Notes) : Normal (.primitive leaf notes)
  | object {attributes : List (Attribute Node)} (h : ∀ a ∈ attributes, Normal a.value) :
    Normal (.object attributes)
  | oneOf {members : List Node} (hlength : members = [] ∨ 2 ≤ members.length)
    (hunion : ∀ n ∈ members, n.isUnion = false)
    (hdistinct : members.Pairwise fun m n => m.same n = false) (h : ∀ n ∈ members, Normal n) :
    Normal (.oneOf members)
  | list {item : Node} (h : Normal item) : Normal (.list item)
  | enum (values : List Literal) : Normal (.enum values)

/-- The union of different trees in normal form is in normal form, if none of them is a union. -/
theorem Normal.ofAlternatives (hunion : ∀ n ∈ ns, n.isUnion = false)
    (hdistinct : ns.Pairwise fun m n => m.same n = false) (h : ∀ n ∈ ns, n.Normal) :
    (ofAlternatives ns).Normal := by
  match ns with
  | [] => exact .oneOf (Or.inl rfl) hunion hdistinct h
  | [n] => exact h n (.head _)
  | _ :: _ :: _ => exact .oneOf (Or.inr (by simp)) hunion hdistinct h

/-- **Every tree has a normal form**, which is the one that `normalize` makes. -/
theorem normal_normalize (n : Node) : n.normalize.Normal := by
  induction n using choices_induction with
  | primitive leaf notes => exact .primitive leaf notes
  | object attributes ih =>
    rw [normalize_object]
    exact .object (List.forall_mem_map.2 ih)
  | list item ih => exact .list ih
  | enum values => exact .enum values
  | union n _ ih =>
    have hkept : ∀ m ∈ distinct (n.choices.map normalize), ∃ c ∈ n.choices, c.normalize = m :=
      fun m hm => List.mem_map.1 (mem_of_mem_distinct hm)
    rw [normalize_eq_ofAlternatives, ← distinct_eq_eraseDupsBy]
    refine .ofAlternatives (fun m hm => ?_) (pairwise_distinct _) fun m hm => ?_
    · obtain ⟨c, hc, rfl⟩ := hkept m hm
      exact (isUnion_transform (isUnion_of_mem_choices n c hc)).2
    · obtain ⟨c, hc, rfl⟩ := hkept m hm
      exact ih c hc

/-- **A tree in normal form is its own normal form.** -/
theorem normalize_of_normal (h : n.Normal) : n.normalize = n := by
  induction h with
  | primitive leaf notes => rfl
  | @object attributes _ ih =>
    have hvalue : ∀ a ∈ attributes, a.map normalize = a := fun a ha => by
      rw [Attribute.map, ih a ha]
    rw [normalize_object, List.map_congr_left hvalue, List.map_id']
  | @oneOf members hlength hunion hdistinct _ ih =>
    rw [normalize_eq_ofAlternatives, choices_oneOf_of_isUnion_eq_false hunion,
      List.map_congr_left ih, List.map_id', ← distinct_eq_eraseDupsBy,
      distinct_of_pairwise hdistinct]
    match members, hlength with
    | [], _ => rfl
    | _ :: _ :: _, _ => rfl
    | [_], hlength => simp at hlength
  | list _ ih => rw [normalize_list, ih]
  | enum values => rfl

/-- **Normalization reaches a normal form and is idempotent.** Whatever the unions of a tree,
nested, empty or declared with one member: its normal form has no `sum`, and every `oneOf` in it has
no member or at least two, none of them a union and no two of them the `same` (`Normal`).
Normalizing that once more changes nothing; the trees that `normalize` does not change are those in
normal form. -/
theorem normalize_reaches_normal_form :
    (∀ n : Node, n.normalize.Normal) ∧ (∀ n : Node, n.normalize.normalize = n.normalize) ∧
      ∀ n : Node, n.normalize = n ↔ n.Normal :=
  ⟨normal_normalize, fun n => normalize_of_normal (normal_normalize n),
    fun n => ⟨fun h => h ▸ normal_normalize n, normalize_of_normal⟩⟩

/-- Of a union of one the member is left, of a union of none nothing, at any depth. -/
example : (list (oneOf [oneOf [sum (scalar .null) (oneOf []), oneOf [scalar .null]]])).normalize =
    list (scalar .null) := by decide

end Node

end JsonShape
