import JsonShape.Input.Call
import JsonShape.Proofs.Json.Canonical
import JsonShape.Schema.Fragment

/-!
# Values that satisfy a fragment

A fragment is read against components, to which its references point. A value satisfies it if every
keyword of the fragment holds of the value; a fragment that is nullable admits null outright. A
keyword without a rule holds of nothing. References may lead round in circles: the reading is the
least one, so a circle alone admits no value.

* `Satisfies` and `Holds` are this reading of fragments and of keywords.
* `holds_type`, `holds_oneOf` and the like: when a keyword holds.
* `satisfies_of_same`: equal fragments are satisfied by the same values.
-/

namespace JsonShape

/-- Whether a value is of the type that a keyword `type` names. -/
def Json.hasType (name : String) (v : Json) : Bool :=
  match name with
  | "null" => v.isNull
  | "boolean" => v.isBoolean
  | "integer" => v.isInteger
  | "number" => v.isNumber
  | "string" => v.isString
  | "object" => v.members?.isSome
  | "array" => v.isArray
  | _ => false

variable [Regex.Engine]

mutual

/-- The value satisfies the fragment, where references are to `components`: it is null and the
fragment is `nullable`, or every keyword holds of it. -/
inductive Satisfies (components : Dict Json) : (fragment v : Json) → Prop
  | null {fragment : Json} (h : fragment.get? "nullable" = some (.bool true)) :
    Satisfies components fragment .null
  | keywords {ks : Dict Json} {v : Json}
    (h : ∀ key arg, ks.get? key = some arg → Holds components key arg v) :
    Satisfies components (.object ks) v

/-- The keyword, with its argument, holds of the value. Keywords that are not listed here, and
arguments of another form, hold of none. -/
inductive Holds (components : Dict Json) : (key : String) → (arg v : Json) → Prop
  | format {arg v : Json} : Holds components "format" arg v
  | description {arg v : Json} : Holds components "description" arg v
  | nullable {arg v : Json} : Holds components "nullable" arg v
  | type {name : String} {v : Json} (h : v.hasType name) :
    Holds components "type" (.string name) v
  | enum {values : List Json} {v : Json} (h : Input.isMember values v) :
    Holds components "enum" (.array values) v
  | pattern {regex : Regex} {v : Json} (h : Input.fits regex v) :
    Holds components "pattern" (.string regex.source) v
  | required {names : List Json} {v : Json}
    (h : ∀ ms, v = .object ms → ∀ n ∈ names, ∃ key, n = .string key ∧ Dict.contains ms key) :
    Holds components "required" (.array names) v
  | properties {ps : Dict Json} {v : Json}
    (h : ∀ ms, v = .object ms → ∀ key f x, ps.get? key = some f → Dict.get? ms key = some x →
      Satisfies components f x) :
    Holds components "properties" (.object ps) v
  | items {f v : Json} (h : ∀ xs, v = .array xs → ∀ x ∈ xs, Satisfies components f x) :
    Holds components "items" f v
  | oneOf {fs : List Json} {f v : Json} (hf : f ∈ fs) (h : Satisfies components f v) :
    Holds components "oneOf" (.array fs) v
  | allOf {fs : List Json} {v : Json} (h : ∀ f ∈ fs, Satisfies components f v) :
    Holds components "allOf" (.array fs) v
  | reference {name : String} {f v : Json} (hf : components.get? name = some f)
    (h : Satisfies components f v) :
    Holds components Fragment.refKey (.string (Fragment.componentPrefix ++ name)) v

end

variable {components : Dict Json} {f arg v : Json} {ks : Dict Json}

/-! ## Keywords -/

/-- Every keyword holds. -/
def HoldsAll (components ks : Dict Json) (v : Json) : Prop :=
  ∀ key arg, ks.get? key = some arg → Holds components key arg v

theorem satisfies_object : Satisfies components (.object ks) v ↔
    (v = .null ∧ ks.get? "nullable" = some (.bool true)) ∨ HoldsAll components ks v := by
  constructor
  · intro h
    cases h with
    | null h => exact Or.inl ⟨rfl, h⟩
    | keywords h => exact Or.inr h
  · rintro (⟨rfl, h⟩ | h)
    · exact .null h
    · exact .keywords h

/-- Only objects are satisfied. -/
theorem not_satisfies (h : f.members? = none) : ¬Satisfies components f v := by
  rintro (h' | h')
  · cases f with
    | object ks => simp [Json.members?] at h
    | _ => simp [Json.get?] at h'
  · simp [Json.members?] at h

theorem holds_type : Holds components "type" arg v ↔
    ∃ name, arg = .string name ∧ v.hasType name := by
  constructor
  · intro h
    generalize hk : "type" = key at h
    cases h with
    | type h => exact ⟨_, rfl, h⟩
    | _ => simp [Fragment.refKey] at hk
  · rintro ⟨name, rfl, h⟩
    exact .type h

theorem holds_enum : Holds components "enum" arg v ↔
    ∃ values, arg = .array values ∧ Input.isMember values v := by
  constructor
  · intro h
    generalize hk : "enum" = key at h
    cases h with
    | enum h => exact ⟨_, rfl, h⟩
    | _ => simp [Fragment.refKey] at hk
  · rintro ⟨values, rfl, h⟩
    exact .enum h

theorem holds_pattern : Holds components "pattern" arg v ↔
    ∃ regex : Regex, arg = .string regex.source ∧ Input.fits regex v := by
  constructor
  · intro h
    generalize hk : "pattern" = key at h
    cases h with
    | pattern h => exact ⟨_, rfl, h⟩
    | _ => simp [Fragment.refKey] at hk
  · rintro ⟨regex, rfl, h⟩
    exact .pattern h

theorem holds_required : Holds components "required" arg v ↔
    ∃ names, arg = .array names ∧
      ∀ ms, v = .object ms → ∀ n ∈ names, ∃ key, n = .string key ∧ Dict.contains ms key := by
  constructor
  · intro h
    generalize hk : "required" = key at h
    cases h with
    | required h => exact ⟨_, rfl, h⟩
    | _ => simp [Fragment.refKey] at hk
  · rintro ⟨names, rfl, h⟩
    exact .required h

theorem holds_properties : Holds components "properties" arg v ↔
    ∃ ps : Dict Json, arg = .object ps ∧
      ∀ ms, v = .object ms → ∀ key f x, ps.get? key = some f → Dict.get? ms key = some x →
        Satisfies components f x := by
  constructor
  · intro h
    generalize hk : "properties" = key at h
    cases h with
    | properties h => exact ⟨_, rfl, h⟩
    | _ => simp [Fragment.refKey] at hk
  · rintro ⟨ps, rfl, h⟩
    exact .properties h

theorem holds_items : Holds components "items" arg v ↔
    ∀ xs, v = .array xs → ∀ x ∈ xs, Satisfies components arg x := by
  constructor
  · intro h
    generalize hk : "items" = key at h
    cases h with
    | items h => exact h
    | _ => simp [Fragment.refKey] at hk
  · exact .items

theorem holds_oneOf : Holds components "oneOf" arg v ↔
    ∃ fs, arg = .array fs ∧ ∃ f ∈ fs, Satisfies components f v := by
  constructor
  · intro h
    generalize hk : "oneOf" = key at h
    cases h with
    | oneOf hf h => exact ⟨_, rfl, _, hf, h⟩
    | _ => simp [Fragment.refKey] at hk
  · rintro ⟨fs, rfl, f, hf, h⟩
    exact .oneOf hf h

theorem holds_allOf : Holds components "allOf" arg v ↔
    ∃ fs, arg = .array fs ∧ ∀ f ∈ fs, Satisfies components f v := by
  constructor
  · intro h
    generalize hk : "allOf" = key at h
    cases h with
    | allOf h => exact ⟨_, rfl, h⟩
    | _ => simp [Fragment.refKey] at hk
  · rintro ⟨fs, rfl, h⟩
    exact .allOf h

theorem holds_reference : Holds components Fragment.refKey arg v ↔
    ∃ name f, arg = .string (Fragment.componentPrefix ++ name) ∧ components.get? name = some f ∧
      Satisfies components f v := by
  constructor
  · intro h
    generalize hk : Fragment.refKey = key at h
    cases h with
    | reference hf h => exact ⟨_, _, rfl, hf, h⟩
    | _ => simp [Fragment.refKey] at hk
  · rintro ⟨name, f, rfl, hf, h⟩
    exact .reference hf h

/-! ## Equal fragments -/

omit [Regex.Engine] in
theorem isMember_canonical (values : List Json) (v : Json) :
    Input.isMember (values.map Json.canonical) v = Input.isMember values v := by
  simp [Input.isMember, Function.comp_def]

/-- What holds of a value holds of it with the argument in canonical form, given the same of the
fragments in the argument. The fragment `f` is the argument itself. -/
theorem holds_canonical_array {key : String} {fs : List Json}
    (hself : ∀ v, Satisfies components (Json.array fs).canonical v ↔
      Satisfies components (.array fs) v)
    (hitems : ∀ f ∈ fs, ∀ v, Satisfies components f.canonical v ↔ Satisfies components f v) :
    Holds components key (.array (fs.map Json.canonical)) v ↔
      Holds components key (.array fs) v := by
  rw [Json.canonical_array] at hself
  constructor
  · intro h
    cases h with
    | format => exact .format
    | description => exact .description
    | nullable => exact .nullable
    | enum h => exact .enum (isMember_canonical fs v ▸ h)
    | required h =>
      refine .required fun ms hv n hn => ?_
      obtain ⟨key, hkey, hms⟩ := h ms hv n.canonical (List.mem_map_of_mem hn)
      exact ⟨key, Json.canonical_eq_string.1 hkey, hms⟩
    | items h => exact .items fun xs hv x hx => (hself x).1 (h xs hv x hx)
    | oneOf hf h =>
      obtain ⟨g, hg, rfl⟩ := List.mem_map.1 hf
      exact .oneOf hg ((hitems g hg v).1 h)
    | allOf h => exact .allOf fun f hf => (hitems f hf v).1 (h _ (List.mem_map_of_mem hf))
  · intro h
    cases h with
    | format => exact .format
    | description => exact .description
    | nullable => exact .nullable
    | enum h => exact .enum ((isMember_canonical fs v).symm ▸ h)
    | required h =>
      refine .required fun ms hv n hn => ?_
      obtain ⟨m, hm, rfl⟩ := List.mem_map.1 hn
      obtain ⟨key, rfl, hms⟩ := h ms hv m hm
      exact ⟨key, rfl, hms⟩
    | items h => exact .items fun xs hv x hx => (hself x).2 (h xs hv x hx)
    | oneOf hf h => exact .oneOf (List.mem_map_of_mem hf) ((hitems _ hf v).2 h)
    | allOf h =>
      refine .allOf fun f hf => ?_
      obtain ⟨g, hg, rfl⟩ := List.mem_map.1 hf
      exact (hitems g hg v).2 (h g hg)

theorem holds_canonical_object {key : String} {ps : Dict Json}
    (hself : ∀ v, Satisfies components (Json.object ps).canonical v ↔
      Satisfies components (.object ps) v)
    (hmembers : ∀ e ∈ ps, ∀ v, Satisfies components e.2.canonical v ↔ Satisfies components e.2 v) :
    Holds components key (Json.object ps).canonical v ↔ Holds components key (.object ps) v := by
  rw [Json.canonical_object] at hself ⊢
  constructor
  · intro h
    cases h with
    | format => exact .format
    | description => exact .description
    | nullable => exact .nullable
    | properties h =>
      refine .properties fun ms hv key f x hf hx => ?_
      have hc := h ms hv key f.canonical x
      rw [Dict.get?_sortByName, Dict.get?_mapValues, hf] at hc
      exact (hmembers _ (Dict.mem_of_get? hf) x).1 (hc rfl hx)
    | items h => exact .items fun xs hv x hx => (hself x).1 (h xs hv x hx)
  · intro h
    cases h with
    | format => exact .format
    | description => exact .description
    | nullable => exact .nullable
    | properties h =>
      refine .properties fun ms hv key f x hf hx => ?_
      rw [Dict.get?_sortByName, Dict.get?_mapValues, Option.map_eq_some_iff] at hf
      obtain ⟨f, hf, rfl⟩ := hf
      exact (hmembers _ (Dict.mem_of_get? hf) x).2 (h ms hv key f x hf hx)
    | items h => exact .items fun xs hv x hx => (hself x).2 (h xs hv x hx)

theorem satisfies_canonical_object
    (ih : ∀ e ∈ ks, ∀ key v, Holds components key e.2.canonical v ↔ Holds components key e.2 v) :
    Satisfies components (Json.object ks).canonical v ↔ Satisfies components (.object ks) v := by
  have hget : ∀ key, (Dict.mapValues Json.canonical ks).sortByName.get? key =
      (ks.get? key).map Json.canonical := fun key => by
    rw [Dict.get?_sortByName, Dict.get?_mapValues]
  rw [Json.canonical_object, satisfies_object, satisfies_object, hget]
  refine or_congr (and_congr_right fun _ => ?_) ⟨fun h key arg hk => ?_, fun h key arg hk => ?_⟩
  · cases ks.get? "nullable" with
    | none => simp
    | some arg => cases arg <;> simp [Json.canonical]
  · exact (ih _ (Dict.mem_of_get? hk) key v).1 (h key _ (by rw [hget, hk]; rfl))
  · rw [hget, Option.map_eq_some_iff] at hk
    obtain ⟨arg, hk, rfl⟩ := hk
    exact (ih _ (Dict.mem_of_get? hk) key v).2 (h key arg hk)

/-- Fragments and keywords mean the same in canonical form, by induction on the fragment. -/
theorem satisfies_canonical_and (f : Json) :
    (∀ v, Satisfies components f.canonical v ↔ Satisfies components f v) ∧
      ∀ key v, Holds components key f.canonical v ↔ Holds components key f v := by
  induction f with
  | null | bool _ | string _ => exact ⟨fun _ => Iff.rfl, fun _ _ => Iff.rfl⟩
  | number n =>
    have hself : ∀ n v, ¬Satisfies components (.number n) v := fun n v => not_satisfies rfl
    refine ⟨fun v => iff_of_false (hself _ v) (hself n v), fun key v => ?_⟩
    rw [Json.canonical]
    constructor
    all_goals
      intro h
      cases h with
      | format => exact .format
      | description => exact .description
      | nullable => exact .nullable
      | items h => exact .items fun xs hv x hx => absurd (h xs hv x hx) (hself _ x)
  | array fs ih =>
    have hself : ∀ v, Satisfies components (Json.array fs).canonical v ↔
        Satisfies components (.array fs) v := fun v =>
      iff_of_false (not_satisfies (by rw [Json.canonical_array]; rfl)) (not_satisfies rfl)
    refine ⟨hself, fun key v => ?_⟩
    rw [Json.canonical_array]
    exact holds_canonical_array hself fun f hf => (ih f hf).1
  | object ks ih =>
    have hself : ∀ v, Satisfies components (Json.object ks).canonical v ↔
        Satisfies components (.object ks) v := fun v =>
      satisfies_canonical_object fun e he => (ih e he).2
    exact ⟨hself, fun key v => holds_canonical_object hself fun e he => (ih e he).1⟩

/-- **Equal fragments are satisfied by the same values**: the order of keywords does not count. -/
theorem satisfies_of_same {g : Json} (h : f.same g) :
    Satisfies components f v ↔ Satisfies components g v := by
  rw [← (satisfies_canonical_and f).1, Json.same_iff.1 h, (satisfies_canonical_and g).1]

end JsonShape
