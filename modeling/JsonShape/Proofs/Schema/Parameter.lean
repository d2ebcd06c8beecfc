import JsonShape.Proofs.Json.Canonical
import JsonShape.Proofs.Schema.Throughout
import JsonShape.Schema.Parameter

/-!
# Reading parameters off a fragment

Parameters are read off the properties of a fragment, after references are followed and
intersections are merged. A scalar fragment stands for itself and is a parameter anywhere
(`ofProperty_scalar`). A record fragment, and an intersection of record fragments, has properties
and required names that can be told from its members: those of a later one are laid over those of an
earlier one (`Parameter.Record.allOf`).

* `Parameter.Scalar`: fragments of a scalar type, with whatever is remarked on it.
* `Parameter.Record`: fragments of records, with their properties and required names.
* `project_record`: the parameters of a record whose properties are scalar.
-/

namespace JsonShape

/-- A list of results is there if each of them is. -/
theorem Except.mapM_eq_ok {ε α β : Type} {f : α → Except ε β} {xs : List α} {ys : List β} :
    xs.mapM f = .ok ys ↔ List.Forall₂ (fun x y => f x = .ok y) xs ys := by
  induction xs generalizing ys with
  | nil => simp [pure, Except.pure, eq_comm]
  | cons x xs ih =>
    simp only [List.mapM_cons]
    constructor
    · intro h
      obtain ⟨y, hy, h⟩ := Except.bind_eq_ok.1 h
      obtain ⟨rest, hrest, h⟩ := Except.bind_eq_ok.1 h
      obtain rfl := Except.ok.inj h
      exact .cons hy (ih.1 hrest)
    · rintro (_ | ⟨hy, hrest⟩)
      exact Except.bind_eq_ok.2 ⟨_, hy, Except.bind_eq_ok.2 ⟨_, ih.2 hrest, rfl⟩⟩

theorem Json.string?_eq_some_iff {j : Json} {text : String} :
    j.string? = some text ↔ j = .string text := by
  cases j <;> simp [string?]

namespace Fragment

variable {f : Json} {members : List Json} {k name : String}

/-! ## References -/

theorem dropStart?_append (start s : List Char) : dropStart? start (start ++ s) = some s := by
  induction start with
  | nil => rfl
  | cons c start ih => rw [List.cons_append, dropStart?, if_pos rfl, ih]

theorem referencedName_of_target (h : f.get? refKey = some (.string (componentPrefix ++ name))) :
    referencedName f = some name := by
  have htext : (componentPrefix ++ name).toList = componentPrefix.toList ++ name.toList :=
    String.toList_append
  have hname : referencedName f =
      (dropStart? componentPrefix.toList (componentPrefix ++ name).toList).bind
        fun name => some (String.ofList name) := by
    rw [referencedName, h]
    rfl
  rw [hname, htext, dropStart?_append, Option.bind_some, String.ofList_toList]

theorem referencedName_reference (name : String) : referencedName (reference name) = some name :=
  referencedName_of_target rfl

theorem referencedName_of_get? (h : f.get? refKey = none) : referencedName f = none := by
  rw [referencedName, h]
  rfl

/-! ## Required names -/

theorem string_mem_foldl_addDistinct {more : List Json} :
    .string k ∈ more.foldl addDistinct members ↔ .string k ∈ members ∨ .string k ∈ more := by
  have hclass : ∀ f g : Json, f.same g → (f = .string k ↔ g = .string k) := fun f g h => by
    rw [← Json.canonical_eq_string, Json.same_iff.1 h, Json.canonical_eq_string]
  simpa using addsNew_addDistinct.exists_mem_foldl hclass members more

end Fragment

namespace Parameter

open Fragment

variable {components ks extra properties properties' : Dict Json} {required required' : List Json}
  {f g : Json} {name : String} {steps : Nat}

/-! ## References and intersections -/

theorem resolve_of_none (h : referencedName f = none) (steps : Nat) (components : Dict Json) :
    resolve steps components f = f := by
  cases steps with
  | zero => rfl
  | succ steps => rw [resolve, h]

/-- A reference to a component that is none itself is followed to it. -/
theorem resolve_reference (hget : components.get? name = some f) (hf : referencedName f = none) :
    resolve components.length components (reference name) = f := by
  cases components with
  | nil => cases hget
  | cons e rest =>
    rw [List.length_cons, resolve, referencedName_reference]
    simp only [hget]
    exact resolve_of_none hf _ _

theorem flatten_of_none (h : f.get? "allOf" = none) (components : Dict Json) (steps : Nat) :
    flatten components steps f = f := by
  cases steps with
  | zero => rfl
  | succ steps => simp [flatten, h]

/-- A record fragment stands for itself. -/
theorem flatten_resolve_object (properties : Dict Json) (required : List String) (n : Nat) :
    flatten components steps (resolve n components (Fragment.object properties required)) =
      Fragment.object properties required := by
  rw [resolve_of_none (referencedName_of_get? (get?_object (by decide))),
    flatten_of_none (get?_object (by decide))]

theorem flatten_pair (a b : Json) :
    flatten components (steps + 1) (.object [("allOf", .array [a, b])]) =
      (([flatten components steps (resolve components.length components a),
        flatten components steps (resolve components.length components b)].foldl Gathered.addMember
          ⟨[], [], []⟩).addOuter []).toJson := rfl

/-! ## Scalar fragments -/

/-- The keywords of a fragment that stands for itself, and neither for objects nor for arrays: there
is no `$ref`, no `allOf` and no `properties` among them. -/
structure Scalar (ks : Dict Json) : Prop where
  refers : ks.get? refKey = none
  intersects : ks.get? "allOf" = none
  properties : ks.get? "properties" = none
  type : ∃ name, ks.get? "type" = some (.string name) ∧ name ≠ "object" ∧ name ≠ "array"

/-- What is remarked on a scalar leaves it one, if it says nothing about the type. -/
theorem Scalar.extend (h : Scalar ks) (hextra : Remarks extra) (htype : "type" ∉ extra.names) :
    Scalar (ks.extend extra) := by
  constructor
  · rw [get?_extend_of_remarks hextra (by simp [schemaKeys]), h.refers]
  · rw [get?_extend_of_remarks hextra (by simp [schemaKeys]), h.intersects]
  · rw [get?_extend_of_remarks hextra (by simp [schemaKeys]), h.properties]
  · rw [Dict.get?_extend_of_notMem htype]
    exact h.type

theorem Scalar.merge_eq (h : Scalar ks) (extra : Dict Json) :
    merge (.object ks) extra = .object (ks.extend extra) := by
  cases extra with
  | nil => rfl
  | cons e rest =>
    have hcontains : Dict.contains ks refKey = false := by rw [Dict.contains, h.refers]; rfl
    simp [merge, hcontains]

/-- A scalar is a parameter of its own, anywhere; in a path it is required. -/
theorem ofProperty_scalar (h : Scalar ks) (components : Dict Json) (required : List String)
    (location : Location) (name : String) :
    ofProperty components required location name (.object ks) =
      .ok ⟨name, location, .object ks, location = .path || required.contains name, false⟩ := by
  have hshape : shape components (.object ks) = .object ks := by
    have hrefers : (Json.object ks).get? refKey = none := h.refers
    have hintersects : (Json.object ks).get? "allOf" = none := h.intersects
    rw [shape, resolve_of_none (referencedName_of_get? hrefers), flatten_of_none hintersects]
  obtain ⟨type, htype, hobject, harray⟩ := h.type
  have hhas : ∀ t, hasType (.object ks) t = decide (type = t) := fun t => by
    simp [hasType, Json.get?, htype, Json.string?]
  have hproperties : (Json.object ks).get? "properties" = none := h.properties
  simp [ofProperty, hshape, isObject, isArray, hhas, hobject, harray, hproperties]

/-! ## Record fragments -/

/-- The fragment of a record with the properties `ps` and the required names `rs`. In an
intersection it adds them to those that were gathered before. -/
structure Record (f : Json) (ps : Dict Json) (rs : List Json) : Prop where
  isObject : isObject f
  properties : ((f.get? "properties").bind Json.members?).getD [] = ps
  required : ((f.get? "required").bind Json.items?).getD [] = rs
  added : ∀ g : Gathered, g.addMember f = ⟨g.keywords.insert "type" (.string "object"),
    g.properties.extend ps, rs.foldl addDistinct g.required⟩

theorem record_object (properties : Dict Json) (required : List String) :
    Record (Fragment.object properties required) properties (required.map .string) := by
  cases required <;> exact ⟨rfl, rfl, rfl, fun _ => rfl⟩

theorem record_toJson (properties : Dict Json) (required : List Json) :
    Record (Gathered.toJson ⟨[("type", .string "object")], properties, required⟩) properties
      required := by
  cases properties <;> cases required <;> exact ⟨rfl, rfl, rfl, fun _ => rfl⟩

/-- **An intersection of records** is one: the properties of the second are laid over those of the
first. -/
theorem Record.allOf (hf : Record f properties required) (hg : Record g properties' required')
    (hnodup : properties.names.Nodup) :
    Record (([f, g].foldl Gathered.addMember ⟨[], [], []⟩).addOuter []).toJson
      (properties.extend properties')
      (required'.foldl addDistinct (required.foldl addDistinct [])) := by
  have hproperties : Dict.extend [] properties = properties := Dict.extend_of_nodup hnodup
  rw [List.foldl_cons, List.foldl_cons, List.foldl_nil, hf.added, hg.added, hproperties]
  exact record_toJson _ _

/-- **The parameters of a record with scalar properties**, one for each, in the order of the
properties. -/
theorem project_record (hf : Record (shape components f) properties required)
    (hscalar : ∀ e ∈ properties, ∃ ks, e.2 = .object ks ∧ Scalar ks) (location : Location) :
    project components location f = .ok (properties.map fun e =>
      ⟨e.1, location, e.2,
        location = .path || (required.filterMap Json.string?).contains e.1, false⟩) := by
  have hparameters : ∀ names : List String, properties.mapM (fun e =>
      ofProperty components names location e.1 e.2) = .ok (properties.map fun e =>
        ⟨e.1, location, e.2, location = .path || names.contains e.1, false⟩) := by
    refine fun names => Except.mapM_eq_ok.2 (List.forall₂_map_right_iff.2 ?_)
    refine List.forall₂_same.2 fun e he => ?_
    obtain ⟨ks, hks, hscalar⟩ := hscalar e he
    rw [hks]
    exact ofProperty_scalar hscalar components names location e.1
  simp [project, hf.isObject, hf.properties, hf.required, hparameters]

end Parameter

end JsonShape
