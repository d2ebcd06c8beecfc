import JsonShape.Node.Render
import JsonShape.Proofs.Binary64.Integral
import JsonShape.Proofs.Node.Admits
import JsonShape.Proofs.Schema.Fragment

/-!
# Fragments of type trees mean what the trees do

A value satisfies the fragment of a tree if and only if it is one of the tree, where the name of a
type stands for the component of that name (`satisfies_render`). The tree has to be *proper*: the
keys of a record are distinct, as a fragment has one property for each, and no union is empty, as
the fragment of an empty one admits null.

The null of a union becomes a remark that makes the others nullable, and an enumeration gets the
type that its members share; neither changes the values.
-/

namespace JsonShape

namespace Node

variable {components : Dict Json} {f : Node → Node} {v : Json}

/-! ## Proper trees -/

/-- Records with distinct keys and `oneOf` with members, throughout a tree. -/
inductive Proper : Node → Prop
  | primitive (leaf : Leaf) (notes : Notes) : Proper (.primitive leaf notes)
  | object {attributes : List (Attribute Node)} (hkeys : (attributes.map Attribute.key).Nodup)
    (h : ∀ a ∈ attributes, Proper a.value) : Proper (.object attributes)
  | sum {left right : Node} (hl : Proper left) (hr : Proper right) : Proper (.sum left right)
  | oneOf {members : List Node} (hne : members ≠ []) (h : ∀ n ∈ members, Proper n) :
    Proper (.oneOf members)
  | list {item : Node} (h : Proper item) : Proper (.list item)
  | enum (values : List Literal) : Proper (.enum values)

theorem Proper.transform (hf : ∀ n : Node, n.Proper → (f n).Proper) {n : Node} (h : n.Proper) :
    (n.transform f).Proper := by
  induction h with
  | primitive leaf notes => exact hf _ (.primitive leaf notes)
  | object hkeys _ ih =>
    rw [transform_object]
    refine hf _ (.object ?_ ?_)
    · rwa [List.map_map]
    · exact List.forall_mem_map.2 ih
  | sum _ _ ihl ihr => exact hf _ (.sum ihl ihr)
  | oneOf hne _ ih =>
    rw [transform_oneOf]
    refine hf _ (.oneOf (by simpa using hne) ?_)
    exact List.forall_mem_map.2 ih
  | list _ ih => exact hf _ (.list ih)
  | enum values => exact hf _ (.enum values)

theorem Proper.alternatives {n : Node} (h : n.Proper) :
    n.alternatives ≠ [] ∧ ∀ m ∈ n.alternatives, m.Proper := by
  cases h with
  | oneOf hne h => exact ⟨hne, h⟩
  | primitive leaf notes => simpa [Node.alternatives] using Proper.primitive leaf notes
  | object hkeys h => simpa [Node.alternatives] using Proper.object hkeys h
  | sum hl hr => simpa [Node.alternatives] using Proper.sum hl hr
  | list h => simpa [Node.alternatives] using Proper.list h
  | enum values => simpa [Node.alternatives] using Proper.enum values

theorem Proper.flattenSums {n : Node} (h : n.Proper) : n.flattenSums.Proper := by
  cases h with
  | sum hl hr =>
    refine .oneOf (fun hnil => hl.alternatives.1 (List.append_eq_nil_iff.1 hnil).1) fun m hm => ?_
    exact (List.mem_append.1 hm).elim (hl.alternatives.2 m) (hr.alternatives.2 m)
  | primitive leaf notes => exact .primitive leaf notes
  | object hkeys h => exact .object hkeys h
  | oneOf hne h => exact .oneOf hne h
  | list h => exact .list h
  | enum values => exact .enum values

theorem Proper.ofAlternatives {ns : List Node} (hne : ns ≠ []) (h : ∀ n ∈ ns, n.Proper) :
    (ofAlternatives ns).Proper := by
  unfold Node.ofAlternatives
  split
  · exact h _ (.head _)
  · exact .oneOf hne h

theorem Proper.dedupOneOf {n : Node} (h : n.Proper) : n.dedupOneOf.Proper := by
  cases h with
  | @oneOf members hne h =>
    refine .ofAlternatives (addsNew_addDistinct.foldl_ne_nil fun hnil => ?_) fun m hm => ?_
    · obtain ⟨n, hn⟩ := List.exists_mem_of_ne_nil members hne
      exact (h n hn).alternatives.1 (List.flatMap_eq_nil_iff.1 hnil n hn)
    · obtain ⟨n, hn, hm⟩ := List.mem_flatMap.1 (mem_of_mem_distinct hm)
      exact (h n hn).alternatives.2 m hm
  | primitive leaf notes => exact .primitive leaf notes
  | object hkeys h => exact .object hkeys h
  | sum hl hr => exact .sum hl hr
  | list h => exact .list h
  | enum values => exact .enum values

theorem Proper.mapLeaf {g : Leaf → Leaf} {n : Node} (h : n.Proper) : (n.mapLeaf g).Proper := by
  cases h with
  | primitive leaf notes => exact .primitive _ notes
  | object hkeys h => exact .object hkeys h
  | sum hl hr => exact .sum hl hr
  | oneOf hne h => exact .oneOf hne h
  | list h => exact .list h
  | enum values => exact .enum values

/-- Normal forms and renamed references keep a tree proper. -/
theorem Proper.renameRefs_normalize {n : Node} (h : n.Proper) :
    n.normalize.renameRefs.Proper :=
  ((h.transform fun _ => Proper.flattenSums).transform fun _ => Proper.dedupOneOf).transform
    fun _ => Proper.mapLeaf

/-! ## Basic types -/

theorem get?_keyword {key k : String} (hk : key ≠ k) (text : Option String) (ks : Dict Json) :
    Dict.get? (keyword key text ++ ks) k = ks.get? k := by
  cases text with
  | none => rfl
  | some t => simp [keyword, Dict.get?, hk]

variable [Regex.Engine]

theorem holdsAll_keyword {key : String} {text : Option String} {ks : Dict Json}
    (h : ks.get? key = none) : HoldsAll components (keyword key text ++ ks) v ↔
      (∀ t, text = some t → Holds components key (.string t) v) ∧ HoldsAll components ks v := by
  cases text with
  | none => simp [keyword]
  | some t =>
    rw [keyword, List.singleton_append, holdsAll_cons h]
    simp

theorem satisfies_renderScalar {s : Scalar} {notes : Notes} :
    Satisfies components (renderScalar s notes) v ↔ s.admits v := by
  have hdescription : ∀ text : Option String,
      HoldsAll components (keyword "description" text) v := fun text => by
    rw [← List.append_nil (keyword _ _), holdsAll_keyword rfl]
    exact ⟨fun _ _ => .description, holdsAll_nil⟩
  have hnone : ∀ key, key ≠ "description" →
      Dict.get? (keyword "description" (Dict.get? notes descriptionNote)) key = none :=
    fun key hkey => by
      rw [← List.append_nil (keyword _ _), get?_keyword (Ne.symm hkey)]
      rfl
  rw [renderScalar, List.append_assoc, satisfies_of_nullable_none, holdsAll_keyword,
    holdsAll_keyword (hnone _ (by simp)), and_iff_left (hdescription _),
    and_iff_left fun _ _ => Holds.format]
  · cases s <;> simp [Scalar.typeName?, holds_type, Scalar.admits, Json.hasType]
  · rw [get?_keyword (by simp), hnone _ (by simp)]
  · rw [get?_keyword (by simp), get?_keyword (by simp), hnone _ (by simp)]

@[simp] theorem satisfies_describe {notes : Notes} {fragment : Json} :
    Satisfies components (describe notes fragment) v ↔ Satisfies components fragment v := by
  unfold describe
  split
  · exact Fragment.satisfies_described
  · exact Iff.rfl

/-! ## Unions -/

theorem satisfies_nullFragment : Satisfies components nullFragment v ↔ v = .null := by
  rw [nullFragment, satisfies_type]
  exact Json.isNull_iff

/-- The null of a union makes the others nullable, so `renderOneOf` admits what one of `members`
does. -/
theorem satisfies_renderOneOf {members : List Json} (hne : members ≠ []) :
    Satisfies components (renderOneOf members) v ↔ ∃ m ∈ members, Satisfies components m v := by
  have hnull : ∀ m : Json, m.same nullFragment → (Satisfies components m v ↔ v = .null) :=
    fun m hm => (satisfies_of_same hm).trans satisfies_nullFragment
  have hsplit : (∃ m ∈ members, Satisfies components m v) ↔
      (members.any (fun m => m.same nullFragment) ∧ v = .null) ∨
        ∃ m ∈ members.filter (fun m => !m.same nullFragment), Satisfies components m v := by
    simp only [List.any_eq_true, List.mem_filter]
    constructor
    · rintro ⟨m, hm, h⟩
      by_cases hmn : m.same nullFragment
      · exact Or.inl ⟨⟨m, hm, hmn⟩, (hnull m hmn).1 h⟩
      · exact Or.inr ⟨m, ⟨hm, by simpa using hmn⟩, h⟩
    · rintro (⟨⟨m, hm, hmn⟩, h⟩ | ⟨m, ⟨hm, -⟩, h⟩)
      · exact ⟨m, hm, (hnull m hmn).2 h⟩
      · exact ⟨m, hm, h⟩
  have hnullable : ∀ core, Satisfies components
      (if members.any (fun m => m.same nullFragment) then Fragment.nullable core else core) v ↔
        (members.any (fun m => m.same nullFragment) ∧ v = .null) ∨
          Satisfies components core v := fun core => by
    split
    · next h => simp [h]
    · next h => simp [h]
  rw [hsplit, renderOneOf]
  simp only
  split
  · next h =>
    obtain ⟨m, hm⟩ := List.exists_mem_of_ne_nil members hne
    have hany : members.any fun m => m.same nullFragment :=
      List.any_eq_true.2 ⟨m, hm, by simpa using List.filter_eq_nil_iff.1 h m hm⟩
    simp [satisfies_nullFragment, h, hany]
  · next single h =>
    rw [hnullable, h]
    simp
  · rw [hnullable, Fragment.satisfies_bare_oneOf]

/-! ## Enumerations -/

omit [Regex.Engine] in
theorem literalType_of_enumType? {values : List Json} {t : String} (h : enumType? values = some t)
    {a : Json} (ha : a ∈ values) (hnull : a.isNull = false) : literalType a = t := by
  have hmem : literalType a ∈ (values.filter fun v => !v.isNull).map literalType :=
    List.mem_map_of_mem (List.mem_filter.2 ⟨ha, by simp [hnull]⟩)
  unfold enumType? at h
  split at h
  · simp at h
  · next first rest hlist =>
    rw [hlist] at hmem
    split at h
    · next hall =>
      rw [← Option.some.inj h]
      rcases List.mem_cons.1 hmem with hfirst | hrest
      · exact hfirst
      · simpa using List.all_eq_true.1 hall _ hrest
    · simp at h

omit [Regex.Engine] in
/-- A value that agrees with a literal has the type of the literal. -/
theorem hasType_literalType {l : Literal} (h : l.toJson.sameMember v) (hv : v ≠ .null) :
    v.hasType (literalType l.toJson) := by
  cases l with
  | null => exact absurd (Json.isNull_iff.1 (by simpa [Literal.toJson] using h)) hv
  | integer n =>
    cases v with
    | number m => exact Number.isIntegral_of_sameValue h
    | _ => simp [Literal.toJson, Json.sameMember, Json.same, Json.canonical] at h
  | bool b | number x | string s =>
    cases v <;> simp_all [Literal.toJson, Json.sameMember, Json.same, Json.canonical, literalType,
      Json.hasType, Json.isBoolean, Json.isNumber, Json.isString]

omit [Regex.Engine] in
theorem isMember_null {values : List Json} :
    Input.isMember values .null = values.any Json.isNull := by
  simp [Input.isMember]

theorem satisfies_renderEnum {values : List Literal} :
    Satisfies components (renderEnum (values.map Literal.toJson)) v ↔
      Input.isMember (values.map Literal.toJson) v := by
  generalize hvs : values.map Literal.toJson = vs
  have hget : Dict.get? (keyword "type" (enumType? vs) ++
      ((if vs.any Json.isNull then [("nullable", .bool true)] else []) ++ [("enum", .array vs)]))
      "nullable" = if vs.any Json.isNull then some (.bool true) else none := by
    rw [get?_keyword (by simp)]
    split <;> rfl
  have hrest : HoldsAll components
      ((if vs.any Json.isNull then [("nullable", .bool true)] else []) ++ [("enum", .array vs)]) v ↔
        Input.isMember vs v := by
    split
    · rw [List.singleton_append, holdsAll_cons rfl, holdsAll_singleton, holds_enum,
        and_iff_right Holds.nullable]
      simp
    · rw [List.nil_append, holdsAll_singleton, holds_enum]
      simp
  rw [renderEnum, List.append_assoc, satisfies_object, hget,
    holdsAll_keyword (by split <;> rfl), hrest]
  constructor
  · rintro (⟨rfl, h⟩ | ⟨-, h⟩)
    · rw [isMember_null]
      simpa using h
    · exact h
  · intro h
    by_cases hv : v = .null
    · subst hv
      rw [isMember_null] at h
      exact Or.inl ⟨rfl, if_pos h⟩
    · refine Or.inr ⟨fun t ht => .type ?_, h⟩
      obtain ⟨a, ha, hav⟩ := List.any_eq_true.1 h
      subst hvs
      obtain ⟨l, -, rfl⟩ := List.mem_map.1 ha
      have hnull : l.toJson.isNull = false := by
        refine Bool.eq_false_iff.2 fun hl => hv (Json.isNull_iff.1 ?_)
        rwa [Json.isNull_iff.1 hl, Json.null_sameMember] at hav
      rw [← literalType_of_enumType? ht ha hnull]
      exact hasType_literalType hav hv

/-! ## Records and trees -/

omit [Regex.Engine] in
theorem render_object (attributes : List (Attribute Node)) :
    (object attributes).render = renderObject (attributes.map (Attribute.map render)) :=
  fold_object _ attributes

omit [Regex.Engine] in
theorem render_oneOf (members : List Node) :
    (oneOf members).render = renderOneOf (members.map render) :=
  fold_oneOf _ members

theorem satisfies_renderObject {attributes : List (Attribute Json)}
    (hkeys : (attributes.map Attribute.key).Nodup) :
    Satisfies components (renderObject attributes) v ↔ ∃ ms, v = .object ms ∧
      ∀ a ∈ attributes, (a.required → Dict.contains ms a.key) ∧
        ∀ x, Dict.get? ms a.key = some x → Satisfies components a.value x := by
  have hnames : (Dict.names (attributes.map fun a => (a.key, describe a.notes a.value))).Nodup := by
    rwa [Dict.names, List.map_map]
  rw [renderObject, Fragment.satisfies_object_fragment]
  refine exists_congr fun ms => and_congr_right fun _ => ?_
  constructor
  · rintro ⟨hrequired, hproperties⟩ a ha
    refine ⟨fun hr => ?_, fun x hx => ?_⟩
    · exact hrequired a.key (List.mem_map_of_mem (List.mem_filter.2 ⟨ha, hr⟩))
    · refine satisfies_describe.1 (hproperties a.key (describe a.notes a.value) x ?_ hx)
      rw [Dict.get?_ofList_of_nodup hnames, Dict.get?_eq_some_iff hnames]
      exact List.mem_map.2 ⟨a, ha, rfl⟩
  · intro h
    refine ⟨fun key hkey => ?_, fun key f x hf hx => ?_⟩
    · obtain ⟨a, ha, rfl⟩ := List.mem_map.1 hkey
      exact (h a (List.mem_filter.1 ha).1).1 (List.mem_filter.1 ha).2
    · rw [Dict.get?_ofList_of_nodup hnames, Dict.get?_eq_some_iff hnames] at hf
      obtain ⟨a, ha, haf⟩ := List.mem_map.1 hf
      obtain ⟨rfl, rfl⟩ := Prod.mk.inj haf
      exact satisfies_describe.2 ((h a ha).2 x hx)

/-- **The fragment of a tree admits the values of the tree**, where a reference has the values of
its component. -/
theorem satisfies_render {n : Node} (h : n.Proper) (v : Json) : Satisfies components n.render v ↔
    n.Admits (fun name => Satisfies components (Fragment.reference name)) v := by
  induction h generalizing v with
  | primitive leaf notes =>
    cases leaf with
    | scalar s => exact satisfies_renderScalar
    | ref name => exact satisfies_describe
  | @object attributes hkeys _ ih =>
    rw [render_object, admits_object, satisfies_renderObject (by rwa [List.map_map])]
    simp only [List.forall_mem_map]
    refine exists_congr fun ms => and_congr_right fun _ => forall₂_congr fun a ha => ?_
    exact and_congr_right fun _ => forall₂_congr fun x _ => ih a ha x
  | @sum left right _ _ ihl ihr =>
    have hsum : (sum left right).render = renderOneOf [left.render, right.render] := rfl
    rw [hsum, satisfies_renderOneOf (by simp), admits_sum, ← ihl, ← ihr]
    simp
  | @oneOf members hne _ ih =>
    rw [render_oneOf, satisfies_renderOneOf (by simpa using hne), admits_oneOf]
    simp only [List.mem_map, exists_exists_and_eq_and]
    exact exists_congr fun n => and_congr_right fun hn => ih n hn v
  | @list item _ ih =>
    have hlist : (list item).render = Fragment.array item.render := rfl
    rw [hlist, Fragment.satisfies_array, admits_list]
    exact exists_congr fun xs => and_congr_right fun _ => forall₂_congr fun x _ => ih x
  | enum values => exact satisfies_renderEnum

end Node

end JsonShape
