import JsonShape.Proofs.Distinct
import JsonShape.Proofs.Schema.Satisfies

/-!
# What the values of built fragments are

The functions that build fragments do to the admitted values what their names say: a described
fragment admits what the fragment does, a nullable one null as well, a union what one of its members
does and an intersection what all do. Wrapping a reference, splicing, dropping equal members and
leaving a single one as it is make no difference to that.
-/

namespace JsonShape

variable [Regex.Engine] {components ks : Dict Json} {f arg v : Json} {fs : List Json} {key : String}

/-! ## Keywords one by one -/

@[simp] theorem holdsAll_nil : HoldsAll components [] v := by simp [HoldsAll]

theorem holdsAll_cons (h : ks.get? key = none) :
    HoldsAll components ((key, arg) :: ks) v ↔
      Holds components key arg v ∧ HoldsAll components ks v := by
  simp only [HoldsAll, Dict.get?]
  constructor
  · intro hall
    refine ⟨hall key arg (if_pos rfl), fun k a hk => hall k a ?_⟩
    rwa [if_neg]
    rintro rfl
    simp [h] at hk
  · rintro ⟨hkey, hrest⟩ k a hk
    split at hk
    · next hkk => exact hkk ▸ Option.some.inj hk ▸ hkey
    · exact hrest k a hk

theorem holdsAll_singleton :
    HoldsAll components [(key, arg)] v ↔ Holds components key arg v := by
  rw [holdsAll_cons rfl, and_iff_left holdsAll_nil]

theorem holdsAll_insert (h : HoldsAll components ks v) (hkey : Holds components key arg v) :
    HoldsAll components (ks.insert key arg) v := by
  intro k a hk
  rw [Dict.get?_insert] at hk
  split at hk
  · next hkk => exact hkk ▸ Option.some.inj hk ▸ hkey
  · exact h k a hk

/-- A remark, a keyword that always `Holds`, makes no difference. -/
theorem holdsAll_insert_iff (hkey : ∀ arg, Holds components key arg v) :
    HoldsAll components (ks.insert key arg) v ↔ HoldsAll components ks v := by
  refine ⟨fun h k a hk => ?_, fun h => holdsAll_insert h (hkey arg)⟩
  by_cases hkk : key = k
  · exact hkk ▸ hkey a
  · exact h k a (by rw [Dict.get?_insert, if_neg hkk, hk])

/-- Without the keyword `nullable`, null is not admitted outright. -/
theorem satisfies_of_nullable_none (h : ks.get? "nullable" = none) :
    Satisfies components (.object ks) v ↔ HoldsAll components ks v := by
  rw [satisfies_object, h]
  simp

theorem satisfies_singleton (h : key ≠ "nullable") :
    Satisfies components (.object [(key, arg)]) v ↔ Holds components key arg v := by
  rw [satisfies_of_nullable_none (by simp [Dict.get?, h]), holdsAll_singleton]

@[simp] theorem satisfies_empty : Satisfies components (.object []) v :=
  satisfies_object.2 (Or.inr holdsAll_nil)

theorem satisfies_type {name : String} :
    Satisfies components (.object [("type", .string name)]) v ↔ v.hasType name := by
  rw [satisfies_singleton (by simp), holds_type]
  simp

/-- The format of a string is a remark. -/
theorem satisfies_format :
    Satisfies components (.object [("type", .string "string"), ("format", arg)]) v ↔
      v.isString := by
  rw [satisfies_of_nullable_none rfl, holdsAll_cons rfl, holdsAll_singleton, holds_type,
    and_iff_left .format]
  simp [Json.hasType]

namespace Fragment

/-! ## References and added keywords -/

/-- A reference admits what its component does. -/
theorem satisfies_reference {name : String} : Satisfies components (reference name) v ↔
    ∃ f, components.get? name = some f ∧ Satisfies components f v := by
  rw [reference, satisfies_singleton (by simp [refKey]), holds_reference]
  constructor
  · rintro ⟨name', f, hname, hf, h⟩
    rw [Json.string.injEq, String.append_right_inj] at hname
    exact ⟨f, hname ▸ hf, h⟩
  · rintro ⟨f, hf, h⟩
    exact ⟨name, f, rfl, hf, h⟩

/-- The fragment in which a reference is wrapped. -/
def wrapped (f : Json) : Dict Json := [("allOf", .array [f])]

theorem holdsAll_wrapped : HoldsAll components (wrapped f) v ↔ Satisfies components f v := by
  rw [wrapped, holdsAll_singleton, holds_allOf]
  simp

theorem satisfies_wrapped :
    Satisfies components (.object (wrapped f)) v ↔ Satisfies components f v := by
  rw [satisfies_of_nullable_none rfl, holdsAll_wrapped]

omit [Regex.Engine] in
/-- A keyword is written into a fragment, or into the one that wraps it. -/
theorem mergeOne_cases (f : Json) (key : String) (arg : Json) :
    ∃ ks : Dict Json, mergeOne f key arg = .object (ks.insert key arg) ∧
      (f = .object ks ∨ ks = wrapped f) := by
  unfold mergeOne merge
  simp only [List.isEmpty_cons, Bool.false_eq_true, if_false]
  split
  · next ms =>
    split
    · exact ⟨_, rfl, Or.inr rfl⟩
    · exact ⟨_, rfl, Or.inl rfl⟩
  · exact ⟨_, rfl, Or.inr rfl⟩

theorem satisfies_object_of_cases (h : f = .object ks ∨ ks = wrapped f) :
    Satisfies components (.object ks) v ↔ Satisfies components f v := by
  rcases h with rfl | rfl
  · exact Iff.rfl
  · exact satisfies_wrapped

/-- What satisfies `f` and a keyword satisfies the fragment with the keyword, written into it or
around it. -/
theorem satisfies_mergeOne (hkey : key ≠ "nullable") (hf : Satisfies components f v)
    (h : Holds components key arg v) : Satisfies components (mergeOne f key arg) v := by
  obtain ⟨ks, hmerge, hks⟩ := mergeOne_cases f key arg
  rw [hmerge, satisfies_object, Dict.get?_insert, if_neg hkey]
  rw [← satisfies_object_of_cases hks, satisfies_object] at hf
  exact hf.imp_right fun hall => holdsAll_insert hall h

/-- A description makes no difference. -/
@[simp] theorem satisfies_described {text : String} :
    Satisfies components (described f text) v ↔ Satisfies components f v := by
  obtain ⟨ks, hmerge, hks⟩ := mergeOne_cases f "description" (.string text)
  rw [described, hmerge, ← satisfies_object_of_cases hks, satisfies_object, satisfies_object,
    holdsAll_insert_iff fun _ => .description, Dict.get?_insert, if_neg (by simp)]

/-- A nullable fragment admits null, and what `f` admits. -/
@[simp] theorem satisfies_nullable :
    Satisfies components (nullable f) v ↔ v = .null ∨ Satisfies components f v := by
  obtain ⟨ks, hmerge, hks⟩ := mergeOne_cases f "nullable" (.bool true)
  rw [nullable, hmerge, ← satisfies_object_of_cases hks, satisfies_object, satisfies_object,
    holdsAll_insert_iff fun _ => .nullable, Dict.get?_insert, if_pos rfl]
  tauto

/-! ## Unions and intersections -/

theorem satisfies_bare_oneOf : Satisfies components (.object [("oneOf", .array fs)]) v ↔
    ∃ f ∈ fs, Satisfies components f v := by
  rw [satisfies_singleton (by simp), holds_oneOf]
  simp

theorem satisfies_bare_allOf : Satisfies components (.object [("allOf", .array fs)]) v ↔
    ∀ f ∈ fs, Satisfies components f v := by
  rw [satisfies_singleton (by simp), holds_allOf]
  simp

omit [Regex.Engine] in
/-- A fragment that is spliced is a bare list, or stands for itself. -/
theorem splice_cases (keyword : String) (f : Json) :
    (∃ fs, f = .object [(keyword, .array fs)] ∧ splice keyword f = fs) ∨
      splice keyword f = [f] := by
  unfold splice
  split
  · split
    · next h => exact Or.inl ⟨_, by rw [h], rfl⟩
    · exact Or.inr rfl
  · exact Or.inr rfl

theorem exists_mem_splice : (∃ g ∈ splice "oneOf" f, Satisfies components g v) ↔
    Satisfies components f v := by
  rcases splice_cases "oneOf" f with ⟨fs, rfl, h⟩ | h
  · rw [h, satisfies_bare_oneOf]
  · simp [h]

theorem forall_mem_splice : (∀ g ∈ splice "allOf" f, Satisfies components g v) ↔
    Satisfies components f v := by
  rcases splice_cases "allOf" f with ⟨fs, rfl, h⟩ | h
  · rw [h, satisfies_bare_allOf]
  · simp [h]

omit [Regex.Engine] in
theorem addsNew_addDistinct : AddsNew addDistinct fun f g => f.same g :=
  .of_any ⟨Json.same_self, Json.same_symm, Json.same_trans⟩

omit [Regex.Engine] in
/-- Members of a union are members that are spliced. -/
theorem exists_of_mem_flat {g : Json} (h : g ∈ (fs.flatMap (splice "oneOf")).foldl addDistinct []) :
    ∃ f ∈ fs, g ∈ splice "oneOf" f :=
  List.mem_flatMap.1 ((addsNew_addDistinct.mem_of_mem_foldl h).resolve_left List.not_mem_nil)

/-- A union admits what one of `fs` does: splicing and dropping repetitions change nothing. -/
theorem satisfies_oneOf : Satisfies components (oneOf fs) v ↔
    ∃ f ∈ fs, Satisfies components f v := by
  have hflat : (∃ g ∈ (fs.flatMap (splice "oneOf")).foldl addDistinct [],
      Satisfies components g v) ↔ ∃ f ∈ fs, Satisfies components f v := by
    have hsame : ∀ f g : Json, f.same g → (Satisfies components f v ↔ Satisfies components g v) :=
      fun _ _ => satisfies_of_same
    rw [addsNew_addDistinct.exists_mem_foldl hsame]
    simp only [List.not_mem_nil, false_and, exists_false, false_or, List.mem_flatMap]
    constructor
    · rintro ⟨g, ⟨f, hf, hg⟩, h⟩
      exact ⟨f, hf, exists_mem_splice.1 ⟨g, hg, h⟩⟩
    · rintro ⟨f, hf, h⟩
      obtain ⟨g, hg, h⟩ := exists_mem_splice.2 h
      exact ⟨g, ⟨f, hf, hg⟩, h⟩
  rw [← hflat, oneOf]
  split
  · next single h => simp [h]
  · exact satisfies_bare_oneOf

/-- An intersection admits what all of `fs` do. -/
theorem satisfies_allOf : Satisfies components (allOf fs) v ↔
    ∀ f ∈ fs, Satisfies components f v := by
  rw [allOf, satisfies_bare_allOf]
  simp only [List.mem_flatMap, forall_exists_index, and_imp]
  exact ⟨fun h f hf => forall_mem_splice.1 fun g hg => h g f hf hg,
    fun h g f hf hg => forall_mem_splice.2 (h f hf) g hg⟩

/-! ## Circles -/

/-- Each fragment of the class `C` asks for another one of the class, by reference or in an
intersection. -/
def Circular (components : Dict Json) (C : Json → Prop) : Prop :=
  ∀ f, C f → (∃ name, f = reference name ∧ ∀ g, components.get? name = some g → C g) ∨
    ∃ fs, f = .object [("allOf", .array fs)] ∧ ∃ g ∈ fs, C g

omit [Regex.Engine] in
theorem Circular.exists_key {C : Json → Prop} (hC : Circular components C) (hf : C f) :
    ∃ key arg, f = .object [(key, arg)] ∧ (key = refKey ∨ key = "allOf") := by
  rcases hC f hf with ⟨name, rfl, -⟩ | ⟨fs, rfl, -⟩
  · exact ⟨_, _, rfl, Or.inl rfl⟩
  · exact ⟨_, _, rfl, Or.inr rfl⟩

omit [Regex.Engine] in
/-- A fragment of a circle has one of two keywords. -/
theorem Circular.key_eq {C : Json → Prop} (hC : Circular components C)
    (hf : C (.object [(key, arg)])) : key = refKey ∨ key = "allOf" := by
  obtain ⟨k, a, heq, hk⟩ := hC.exists_key hf
  obtain ⟨rfl, rfl⟩ := Prod.mk.inj (List.singleton_inj.1 (Json.object.inj heq))
  exact hk

mutual

/-- **A circle admits no value**, by induction on how `v` would satisfy a fragment of it. -/
theorem not_satisfies_of_circular {C : Json → Prop} (hC : Circular components C) {f v : Json} :
    Satisfies components f v → ¬C f
  | .null h, hf => by
    obtain ⟨key, arg, rfl, rfl | rfl⟩ := hC.exists_key hf <;>
      simp [Json.get?, Dict.get?, refKey] at h
  | .keywords h, hf => by
    obtain ⟨key, arg, heq, -⟩ := hC.exists_key hf
    have hget := congrArg (fun ks : Dict Json => ks.get? key) (Json.object.inj heq)
    simp only [Dict.get?, if_true] at hget
    exact not_holds_of_circular hC (h key arg hget) (heq ▸ hf)

theorem not_holds_of_circular {C : Json → Prop} (hC : Circular components C) {key : String}
    {arg v : Json} : Holds components key arg v → ¬C (.object [(key, arg)])
  | .format, hf | .description, hf | .nullable, hf | .type _, hf | .enum _, hf | .pattern _, hf
  | .required _, hf | .properties _, hf | .items _, hf | .oneOf _ _, hf => by
    have hkey := hC.key_eq hf
    simp [refKey] at hkey
  | .allOf h, hf => by
    rcases hC _ hf with ⟨name, heq, -⟩ | ⟨fs, heq, g, hg, hcircle⟩
    · simp [reference, refKey] at heq
    · simp only [Json.object.injEq, List.cons.injEq, Prod.mk.injEq, Json.array.injEq, true_and,
        and_true] at heq
      exact not_satisfies_of_circular hC (h g (heq ▸ hg)) hcircle
  | .reference hget h, hf => by
    rcases hC _ hf with ⟨name, heq, hcircle⟩ | ⟨fs, heq, -⟩
    · simp only [reference, Json.object.injEq, List.cons.injEq, Prod.mk.injEq, Json.string.injEq,
        String.append_right_inj, true_and, and_true] at heq
      exact not_satisfies_of_circular hC h (hcircle _ (heq ▸ hget))
    · simp [refKey] at heq

end

/-! ## Records and arrays -/

theorem holds_type_object :
    Holds components "type" (.string "object") v ↔ ∃ ms, v = .object ms := by
  rw [holds_type]
  cases v <;> simp [Json.hasType, Json.members?]

/-- A record admits objects with the required members, whose members fit their fragments. -/
theorem satisfies_object_fragment {properties : Dict Json} {required : List String} :
    Satisfies components (object properties required) v ↔ ∃ ms, v = .object ms ∧
      (∀ key ∈ required, Dict.contains ms key) ∧
      ∀ key f x, properties.get? key = some f → Dict.get? ms key = some x →
        Satisfies components f x := by
  have hrequired : HoldsAll components
      (if required.isEmpty then [] else [("required", .array (required.map .string))]) v ↔
        ∀ ms, v = .object ms → ∀ key ∈ required, Dict.contains ms key := by
    cases required with
    | nil => simp
    | cons k rest =>
      rw [List.isEmpty_cons, if_neg (by simp), holdsAll_singleton, holds_required]
      simp
  rw [object, satisfies_of_nullable_none (by cases required <;> rfl), List.cons_append,
    holdsAll_cons (by cases required <;> rfl), List.cons_append,
    holdsAll_cons (by cases required <;> rfl), List.nil_append, hrequired, holds_type_object,
    holds_properties]
  constructor
  · rintro ⟨⟨ms, rfl⟩, ⟨ps, hps, hp⟩, hr⟩
    obtain rfl := Json.object.inj hps
    exact ⟨ms, rfl, hr ms rfl, hp ms rfl⟩
  · rintro ⟨ms, rfl, hr, hp⟩
    refine ⟨⟨ms, rfl⟩, ⟨properties, rfl, fun ms' hms => ?_⟩, fun ms' hms => ?_⟩
    · exact Json.object.inj hms ▸ hp
    · exact Json.object.inj hms ▸ hr

/-- An array fragment admits arrays whose items fit. -/
theorem satisfies_array : Satisfies components (array f) v ↔
    ∃ xs, v = .array xs ∧ ∀ x ∈ xs, Satisfies components f x := by
  rw [array, satisfies_of_nullable_none rfl, holdsAll_cons rfl, holdsAll_singleton, holds_type,
    holds_items]
  cases v <;> simp [Json.hasType, Json.isArray]

end Fragment

end JsonShape
