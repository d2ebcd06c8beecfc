import JsonShape.Proofs.Node.Alternatives
import JsonShape.Proofs.Schema.Throughout
import JsonShape.Proofs.TypeDef.Documentation

/-!
# The fragments of unions

The fragment of a union lists those of its alternatives beside null, or is that of the single one;
null makes it nullable (`Node.fragment_eq_unionFragment`). Null is recognised by its fragment, which
no other tree has that is no union (`Node.same_nullFragment`). That holds of *bare* trees, whose
leaves have no remarks: a described null would be taken for something else.

* `Node.Bare.throughout`: unions are well formed at every depth of a fragment.
* `Node.Bare.nullable_iff`: which trees have a nullable fragment.
-/

namespace JsonShape

open Compiler (fragment)
open Fragment (Alone Throughout ProperUnion ProperMember refKey)

namespace Node

variable {n c : Node} {f : Json} {fs : List Json} {key k : String} {null : Bool}

/-! ## Bare trees -/

/-- A tree without remarks at its leaves. -/
inductive Bare : Node → Prop
  | primitive (leaf : Leaf) : Bare (.primitive leaf [])
  | object {attributes : List (Attribute Node)} (h : ∀ a ∈ attributes, Bare a.value) :
    Bare (.object attributes)
  | sum {left right : Node} (hl : Bare left) (hr : Bare right) : Bare (.sum left right)
  | oneOf {members : List Node} (h : ∀ n ∈ members, Bare n) : Bare (.oneOf members)
  | list {item : Node} (h : Bare item) : Bare (.list item)
  | enum (values : List Literal) : Bare (.enum values)

theorem Bare.choices (h : n.Bare) : ∀ c ∈ n.choices, c.Bare := by
  induction h with
  | primitive leaf => exact List.forall_mem_singleton.2 (.primitive leaf)
  | object h _ => exact List.forall_mem_singleton.2 (.object h)
  | sum _ _ ihl ihr =>
    rw [choices_sum]
    exact List.forall_mem_append.2 ⟨ihl, ihr⟩
  | oneOf _ ih =>
    intro c hc
    rw [choices_oneOf] at hc
    obtain ⟨n, hn, hc⟩ := List.mem_flatMap.1 hc
    exact ih n hn c hc
  | list h _ => exact List.forall_mem_singleton.2 (.list h)
  | enum values => exact List.forall_mem_singleton.2 (.enum values)

theorem Bare.of_mem_kept (h : n.Bare) (hc : c ∈ n.kept) : c.Bare ∧ c.isUnion = false :=
  have hchoice := mem_choices_of_mem_kept hc
  ⟨h.choices c hchoice, isUnion_of_mem_choices n c hchoice⟩

theorem Bare.of_mem_others (h : n.Bare) (hc : c ∈ n.others) : c.Bare ∧ c.isUnion = false :=
  h.of_mem_kept (List.mem_of_mem_filter hc)

/-! ## Fragments of trees that are no unions -/

theorem not_same_nullFragment (h : f.get? "type" ≠ some (.string "null")) :
    f.same nullFragment = false := by
  refine Bool.eq_false_iff.2 fun hsame => h ?_
  have htype := congrArg (fun v => v.get? "type") (Json.same_iff.1 hsame)
  rw [Json.get?_canonical, Json.get?_canonical] at htype
  obtain ⟨v, hv, hcanonical⟩ := Option.map_eq_some_iff.1 htype
  rw [hv, Json.canonical_eq_string.1 hcanonical]

/-- No value of an enumeration has the type of null. -/
theorem literalType_ne_null (v : Json) : literalType v ≠ "null" := by
  unfold literalType
  split <;> simp

theorem enumType?_ne_null (values : List Json) : enumType? values ≠ some "null" := by
  unfold enumType?
  split
  · simp
  · next first rest hlist =>
    split
    · intro heq
      have hfirst : first ∈ (values.filter fun v => !v.isNull).map literalType := by simp [hlist]
      obtain ⟨v, -, hv⟩ := List.mem_map.1 hfirst
      exact literalType_ne_null v (hv.trans (Option.some.inj heq))
    · simp

theorem fragment_enum (values : List Literal) :
    fragment (.enum values) = renderEnum (values.map Literal.toJson) := rfl

theorem fragment_object (attributes : List (Attribute Node)) : fragment (.object attributes) =
    Fragment.object
      (Dict.ofList (attributes.map fun a => (a.key, describe a.notes (fragment a.value))))
      ((attributes.filter Attribute.required).map Attribute.key) := by
  rw [Compiler.fragment_object, renderObject, List.filter_map, List.map_map, List.map_map]
  rfl

theorem get?_renderEnum (values : List Json) (hkey : key ≠ "enum") :
    (renderEnum values).get? key =
      if key = "type" then (enumType? values).map .string
      else if key = "nullable" ∧ values.any Json.isNull then some (.bool true)
      else none := by
  have hadd : ∀ b : Bool, Dict.get? ((if b then [("nullable", Json.bool true)] else []) ++
      [("enum", .array values)]) key =
        if key = "nullable" ∧ b then some (.bool true) else none := by
    intro b
    cases b <;> simp [Dict.get?, Ne.symm hkey, eq_comm]
  rw [renderEnum, List.append_assoc, Json.get?]
  by_cases htype : key = "type"
  · subst htype
    cases enumType? values with
    | none => simpa [keyword] using hadd (values.any Json.isNull)
    | some t => rfl
  · rw [get?_keyword (Ne.symm htype), hadd, if_neg htype]

/-- Of a bare tree that is no union, the fragment is that of null if the tree is null. -/
theorem same_nullFragment (hbare : c.Bare) (hunion : c.isUnion = false) :
    (fragment c).same nullFragment = c.isNull := by
  cases hbare with
  | sum _ _ | oneOf _ => cases hunion
  | primitive leaf =>
    cases leaf with
    | scalar s => cases s <;> decide
    | ref name => exact not_same_nullFragment fun h => by cases h
  | object _ =>
    refine not_same_nullFragment ?_
    rw [fragment_object, Fragment.get?_object (by simp)]
    simp [Dict.get?]
  | list _ =>
    refine not_same_nullFragment ?_
    rw [Compiler.fragment_list]
    simp [Fragment.array, Json.get?, Dict.get?]
  | enum values =>
    refine not_same_nullFragment ?_
    rw [fragment_enum, get?_renderEnum _ (by simp), if_pos rfl]
    intro h
    obtain ⟨t, ht, heq⟩ := Option.map_eq_some_iff.1 h
    exact enumType?_ne_null _ (Json.string.inj heq ▸ ht)

/-- Whether the tree is an enumeration that lists null. -/
def listsNull : Node → Bool
  | .enum values => values.any fun l => l.toJson.isNull
  | _ => false

theorem listsNull_iff : c.listsNull ↔ ∃ values, c = .enum values ∧ Literal.null ∈ values := by
  have hnull : ∀ l : Literal, l.toJson.isNull ↔ l = .null := fun l => by
    cases l <;> simp [Literal.toJson, Json.isNull]
  cases c with
  | enum values => simp [listsNull, hnull]
  | _ => simp [listsNull]

/-- A tree that is no union lists no alternatives, and is nullable if it is an enumeration that
lists null. -/
theorem get?_fragment (hbare : c.Bare) (hunion : c.isUnion = false)
    (hkey : key = "oneOf" ∨ key = "nullable") : (fragment c).get? key =
      if key = "nullable" ∧ c.listsNull then some (.bool true) else none := by
  cases hbare with
  | sum _ _ | oneOf _ => cases hunion
  | primitive leaf =>
    cases leaf with
    | scalar s => rcases hkey with rfl | rfl <;> cases s <;> rfl
    | ref name => rcases hkey with rfl | rfl <;> rfl
  | object _ =>
    rw [fragment_object, Fragment.get?_object (by rcases hkey with rfl | rfl <;> simp)]
    rcases hkey with rfl | rfl <;> rfl
  | list _ => rcases hkey with rfl | rfl <;> rfl
  | enum values =>
    rw [fragment_enum, get?_renderEnum _ (by rcases hkey with rfl | rfl <;> simp), List.any_map]
    rcases hkey with rfl | rfl <;> rfl

theorem alone_fragment (hbare : c.Bare) (hunion : c.isUnion = false) : Alone (fragment c) := by
  cases hbare with
  | sum _ _ | oneOf _ => cases hunion
  | primitive leaf =>
    cases leaf with
    | scalar s => cases s <;> exact fun h => by cases h
    | ref name =>
      intro _ key hkey
      have href : fragment (.primitive (.ref name) []) =
          Fragment.reference (TypeName.safeName name) := rfl
      rw [href, Fragment.reference, Json.get?, Dict.get?, if_neg (Ne.symm hkey), Dict.get?_nil]
  | object _ =>
    intro h
    rw [Fragment.isReference, fragment_object, Fragment.get?_object (by simp [refKey])] at h
    cases h
  | list _ => exact fun h => by cases h
  | enum values =>
    intro h
    rw [Fragment.isReference, fragment_enum, get?_renderEnum _ (by simp [refKey])] at h
    cases h

/-! ## Fragments of unions -/

/-- The fragment, nullable if null is admitted. -/
def withNull (null : Bool) (f : Json) : Json := if null then Fragment.nullable f else f

/-- The fragment of a union of these alternatives beside null: a single one needs no `oneOf`. -/
def unionFragment (null : Bool) : List Json → Json
  | [] => nullFragment
  | [f] => withNull null f
  | fs => withNull null (.object [("oneOf", .array fs)])

theorem renderOneOf_eq (fs : List Json) : renderOneOf fs =
    unionFragment (fs.any fun f => f.same nullFragment)
      (fs.filter fun f => !f.same nullFragment) := by
  unfold renderOneOf unionFragment
  simp only
  generalize fs.filter (fun f => !f.same nullFragment) = gs
  rcases gs with _ | ⟨_, _ | _⟩ <;> rfl

theorem fragment_of_isNull (hbare : c.Bare) (hnull : c.isNull) : fragment c = nullFragment := by
  cases hbare with
  | primitive leaf =>
    cases leaf with
    | scalar s =>
      cases s with
      | null => rfl
      | _ => cases hnull
    | ref name => cases hnull
  | _ => cases hnull

/-- A tree that is no union is documented like the union of which it is the only member. -/
theorem renderOneOf_singleton (hbare : c.Bare) (hunion : c.isUnion = false) :
    renderOneOf [fragment c] = fragment c := by
  rw [renderOneOf_eq, List.any_cons, List.any_nil, Bool.or_false, List.filter_singleton,
    same_nullFragment hbare hunion]
  cases hnull : c.isNull with
  | true => exact (fragment_of_isNull hbare hnull).symm
  | false => rfl

/-- **The fragment of a tree**, from its alternatives: those that are `kept`. -/
theorem fragment_eq_unionFragment (h : n.Bare) :
    fragment n = unionFragment (n.kept.any isNull) (n.others.map fragment) := by
  have hkept : ∀ c ∈ n.kept, c.Bare ∧ c.isUnion = false := fun c => h.of_mem_kept
  have hsame : ∀ c ∈ n.kept, (fragment c).same nullFragment = c.isNull := fun c hc =>
    same_nullFragment (hkept c hc).1 (hkept c hc).2
  have hrender : fragment n = renderOneOf (n.kept.map fragment) := by
    rw [fragment, normalize_eq_kept]
    generalize n.kept = cs at hkept
    rcases cs with _ | ⟨c, _ | ⟨d, rest⟩⟩
    · rfl
    · obtain ⟨hbare, hunion⟩ := hkept c (.head _)
      exact (renderOneOf_singleton hbare hunion).symm
    · change (oneOf _).renameRefs.render = _
      rw [renameRefs, transform_oneOf]
      change (oneOf _).render = _
      rw [render_oneOf, List.map_map, ← List.map_cons, List.map_map]
      rfl
  have hany : (n.kept.map fragment).any (fun f => f.same nullFragment) = n.kept.any isNull := by
    rw [List.any_map, Bool.eq_iff_iff, List.any_eq_true, List.any_eq_true]
    exact exists_congr fun c => and_congr_right fun hc => by rw [Function.comp_apply, hsame c hc]
  have hothers : (n.kept.map fragment).filter (fun f => !f.same nullFragment) =
      n.others.map fragment := by
    rw [List.filter_map, others]
    refine congrArg (List.map fragment) (List.filter_congr fun c hc => ?_)
    rw [Function.comp_apply, hsame c hc]
  rw [hrender, renderOneOf_eq, hany, hothers]

/-! ## Null and descriptions -/

theorem alone_withNull (h : Alone f) : Alone (withNull null f) := by
  unfold withNull
  split
  · exact Fragment.alone_mergeOne (by simp [refKey])
  · exact h

/-- The fragment of a bare tree is a reference alone, or none. -/
theorem Bare.alone (h : n.Bare) : Alone (fragment n) := by
  have hother : ∀ c ∈ n.others, Alone (fragment c) := fun c hc =>
    alone_fragment (h.of_mem_others hc).1 (h.of_mem_others hc).2
  rw [fragment_eq_unionFragment h]
  generalize n.others = cs at hother
  match cs with
  | [] => exact Fragment.alone_of_get? rfl
  | [c] => exact alone_withNull (hother c (.head _))
  | _ :: _ :: _ => exact alone_withNull (Fragment.alone_of_get? rfl)

/-- Null makes nullable, and changes no other keyword but `allOf`. -/
theorem get?_withNull (h : Alone f) (hall : "allOf" ≠ k) (href : k ≠ refKey) :
    (withNull null f).get? k =
      if k = "nullable" ∧ null then some (.bool true) else f.get? k := by
  cases null with
  | false => simp [withNull]
  | true =>
    by_cases hk : k = "nullable"
    · obtain ⟨ks, hmerge, -⟩ := Fragment.mergeOne_cases f "nullable" (.bool true)
      rw [withNull, if_pos rfl, if_pos ⟨hk, rfl⟩, Fragment.nullable, hmerge, hk, Json.get?,
        Dict.get?_insert, if_pos rfl]
    · rw [withNull, if_pos rfl, if_neg fun h => hk h.1]
      exact Fragment.get?_mergeOne_of_alone h (Ne.symm hk) hall href

/-- A description changes no other keyword but `allOf`. -/
theorem get?_describe {notes : Notes} (h : Alone f) (hk : "description" ≠ k) (hall : "allOf" ≠ k)
    (href : k ≠ refKey) : (describe notes f).get? k = f.get? k := by
  unfold describe
  split
  · exact Fragment.get?_mergeOne_of_alone h hk hall href
  · rfl

/-! ## Well-formed unions -/

theorem Bare.properMember (hbare : c.Bare) (hunion : c.isUnion = false) (hnull : c.isNull = false) :
    ProperMember (fragment c) := by
  constructor
  · intro heq
    have hsame := same_nullFragment hbare hunion
    rw [heq, Json.same_self, hnull] at hsame
    cases hsame
  · intro arg heq
    have hnone := get?_fragment hbare hunion (Or.inl rfl)
    rw [heq] at hnone
    simp [Json.get?, Dict.get?] at hnone

theorem throughout_withNull (h : Throughout ProperUnion f) :
    Throughout ProperUnion (withNull null f) := by
  unfold withNull
  split
  · exact h.mergeOne_properUnion (by simp [Fragment.schemaKeys, refKey])
  · exact h

theorem throughout_describe {notes : Notes} (h : Throughout ProperUnion f) :
    Throughout ProperUnion (describe notes f) := by
  unfold describe
  split
  · exact h.mergeOne_properUnion (by simp [Fragment.schemaKeys, refKey])
  · exact h

theorem throughout_nullFragment : Throughout ProperUnion nullFragment :=
  Fragment.throughout_of_remarks (Fragment.properUnion_of_none rfl)
    (by simp [Fragment.schemaKeys, refKey, Dict.get?])

theorem throughout_unionFragment (h : ∀ f ∈ fs, Throughout ProperUnion f)
    (hmember : ∀ f ∈ fs, ProperMember f) : Throughout ProperUnion (unionFragment null fs) := by
  match fs with
  | [] => exact throughout_nullFragment
  | [f] => exact throughout_withNull (h f (.head _))
  | f :: g :: rest =>
    refine throughout_withNull (Fragment.throughout_singleton ?_ h)
    exact Fragment.properUnion_oneOf (by simp) hmember

/-- **Unions are well formed throughout the fragment of a bare tree** (`ProperUnion`). -/
theorem Bare.throughout (h : n.Bare) : Throughout ProperUnion (fragment n) := by
  induction n using choices_induction with
  | primitive leaf notes =>
    cases h
    cases leaf with
    | scalar s =>
      cases s <;> exact Fragment.throughout_of_remarks (Fragment.properUnion_of_none rfl)
        (by simp [Fragment.schemaKeys, refKey, keyword, Scalar.typeName?,
          Scalar.format?, Dict.get?])
    | ref name =>
      refine Fragment.throughout_singleton (Fragment.properUnion_of_none rfl) ?_
      simp [Fragment.schemasUnder, refKey]
  | object attributes ih =>
    cases h with
    | object hvalues =>
      rw [fragment_object]
      refine Fragment.throughout_object (Fragment.properUnion_of_none ?_) fun f hf => ?_
      · rw [Fragment.get?_object (by simp)]
        rfl
      · obtain ⟨e, he, rfl⟩ := List.mem_map.1 hf
        obtain ⟨a, ha, rfl⟩ := List.mem_map.1 (Dict.mem_of_mem_ofList he)
        exact throughout_describe (ih a ha (hvalues a ha))
  | list item ih =>
    cases h with
    | list hitem =>
      rw [Compiler.fragment_list]
      exact Fragment.throughout_array (Fragment.properUnion_of_none rfl) (ih hitem)
  | enum values =>
    have hnone : ∀ key ∈ Fragment.schemaKeys, (fragment (.enum values)).get? key = none := by
      intro key hkey
      have hne : key ≠ "enum" ∧ key ≠ "type" ∧ key ≠ "nullable" := by
        simp only [Fragment.schemaKeys, List.mem_cons, List.not_mem_nil, or_false] at hkey
        rcases hkey with rfl | rfl | rfl | rfl | rfl <;> simp [refKey]
      rw [fragment_enum, get?_renderEnum _ hne.1, if_neg hne.2.1, if_neg fun h => hne.2.2 h.1]
    exact Fragment.throughout_of_remarks
      (Fragment.properUnion_of_none (hnone _ (by simp [Fragment.schemaKeys]))) hnone
  | union n _ ih =>
    rw [fragment_eq_unionFragment h]
    refine throughout_unionFragment ?_ ?_
    · refine List.forall_mem_map.2 fun c hc => ?_
      have hchoice := mem_choices_of_mem_others hc
      exact ih c hchoice (h.choices c hchoice)
    · refine List.forall_mem_map.2 fun c hc => ?_
      obtain ⟨hbare, hunion⟩ := h.of_mem_others hc
      exact hbare.properMember hunion (by simpa using (List.mem_filter.1 hc).2)

/-! ## Nullable unions -/

theorem listsNull_normalize (h : c.isUnion = false) : c.normalize.listsNull = c.listsNull := by
  cases c with
  | sum _ _ | oneOf _ => cases h
  | object _ => rw [normalize_object]; rfl
  | primitive _ _ | list _ | enum _ => rfl

theorem isNull_of_listsNull (h : c.listsNull) : c.isNull = false := by
  cases c with
  | enum values => rfl
  | _ => cases h

/-- A tree is an enumeration that lists null in the end, if this is its only alternative. -/
theorem listsNull_normalize_iff : n.normalize.listsNull ↔ ∃ c, n.kept = [c] ∧ c.listsNull := by
  have hunion : ∀ c ∈ n.kept, c.isUnion = false := fun c hc =>
    isUnion_of_mem_choices n c (mem_choices_of_mem_kept hc)
  rw [normalize_eq_kept]
  generalize n.kept = cs at hunion
  match cs with
  | [] => simp [ofAlternatives, listsNull]
  | [c] => simp [ofAlternatives, listsNull_normalize (hunion c (.head _))]
  | _ :: _ :: _ => simp [ofAlternatives, listsNull]

theorem get?_nullable_withNull (h : Alone f) :
    (withNull true f).get? "nullable" = some (.bool true) :=
  (get?_withNull h (by simp) (by simp [refKey])).trans (if_pos ⟨rfl, rfl⟩)

theorem get?_unionFragment (h : ∀ f ∈ fs, Alone f) :
    (unionFragment null fs).get? "nullable" = some (.bool true) ↔
      (null ∧ fs ≠ []) ∨ ∃ f, fs = [f] ∧ f.get? "nullable" = some (.bool true) := by
  match fs with
  | [] => simp [unionFragment, nullFragment, Json.get?, Dict.get?]
  | [f] =>
    have hnull := get?_nullable_withNull (h f (.head _))
    cases null with
    | false => simp [unionFragment, withNull]
    | true => simp [unionFragment, hnull]
  | f :: g :: rest =>
    have halone : Alone (.object [("oneOf", .array (f :: g :: rest))]) :=
      Fragment.alone_of_get? rfl
    have hnull := get?_nullable_withNull halone
    cases null with
    | false => simp [unionFragment, withNull, Json.get?, Dict.get?]
    | true => simp [unionFragment, hnull]

/-- **What is nullable**: a union of null and something else among its `choices`, and what has an
enumeration that lists null as its only alternative. -/
theorem Bare.nullable_iff (h : n.Bare) :
    (fragment n).get? "nullable" = some (.bool true) ↔
      ((∃ c ∈ n.choices, c.isNull = true) ∧ ∃ c ∈ n.choices, c.isNull = false) ∨
        ∃ values, n.normalize = .enum values ∧ Literal.null ∈ values := by
  have hother : ∀ c ∈ n.others, c.Bare ∧ c.isUnion = false := fun c => h.of_mem_others
  have hsingle : (∃ f, n.others.map fragment = [f] ∧ f.get? "nullable" = some (.bool true)) ↔
      ∃ c, n.others = [c] ∧ c.listsNull := by
    constructor
    · rintro ⟨f, hf, hnullable⟩
      obtain ⟨c, hc, rfl⟩ := List.map_eq_singleton_iff.1 hf
      obtain ⟨hbare, hunion⟩ := hother c (hc ▸ .head _)
      rw [get?_fragment hbare hunion (Or.inr rfl)] at hnullable
      exact ⟨c, hc, by simpa using hnullable⟩
    · rintro ⟨c, hc, hlists⟩
      obtain ⟨hbare, hunion⟩ := hother c (hc ▸ .head _)
      refine ⟨fragment c, by rw [hc]; rfl, ?_⟩
      rw [get?_fragment hbare hunion (Or.inr rfl), if_pos ⟨rfl, hlists⟩]
  have hne : n.others ≠ [] ↔ ∃ c ∈ n.kept, c.isNull = false := by
    simp [others, List.filter_eq_nil_iff]
  rw [fragment_eq_unionFragment h, get?_unionFragment (List.forall_mem_map.2 fun c hc =>
    alone_fragment (hother c hc).1 (hother c hc).2), hsingle, List.any_eq_true, ne_eq,
    List.map_eq_nil_iff, ← ne_eq, hne, exists_mem_kept_iff, exists_mem_kept_iff, ← listsNull_iff,
    listsNull_normalize_iff]
  -- where null is not beside anything else, nothing is left out of a single alternative
  refine or_congr_right' fun hnot => exists_congr fun c => and_congr_left fun hlists => ?_
  constructor
  · intro hc
    have hmem : c ∈ n.others := hc ▸ .head _
    have hbeside : ∃ c ∈ n.choices, c.isNull = false :=
      ⟨c, mem_choices_of_mem_others hmem, isNull_of_listsNull hlists⟩
    have hall : n.others = n.kept := List.filter_eq_self.2 fun k hk => by
      simpa using fun hnull => hnot ⟨⟨k, mem_choices_of_mem_kept hk, hnull⟩, hbeside⟩
    rw [← hall, hc]
  · intro hc
    rw [others, hc, List.filter_singleton, isNull_of_listsNull hlists]
    rfl

end Node

end JsonShape
