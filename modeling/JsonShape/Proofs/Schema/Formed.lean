import JsonShape.Proofs.Schema.Throughout

/-!
# The form of documentation

A fragment that documents something has a form that arbitrary keywords need not have
(`Fragment.Formed`): no keyword is repeated, properties are named, a reference stands alone, and an
intersection has neither a type nor properties beside it. Fragments that are built from others keep
it, since what is added to a reference wraps it first.
-/

namespace JsonShape

namespace Fragment

/-- The properties of a fragment. -/
def propertiesOf (f : Json) : Dict Json := ((f.get? "properties").bind Json.members?).getD []

/-- A fragment without repeated keywords, whose properties, if it has any, are named. -/
structure Tidy (f : Json) : Prop where
  keywords : ∃ ks, f = .object ks ∧ (Dict.names ks).Nodup
  properties : ∀ arg, f.get? "properties" = some arg → ∃ ps, arg = .object ps

/-- The form of documentation: a `Tidy` fragment in which a reference stands alone, and an
intersection has no type and no properties beside it. -/
structure Formed (f : Json) : Prop where
  tidy : Tidy f
  alone : Alone f
  intersects : ∀ arg, f.get? "allOf" = some arg →
    f.get? "type" = none ∧ f.get? "properties" = none

/-- An intersection wraps a single fragment or ends in a record. -/
def Settled (f : Json) : Prop := ∀ ms, f.get? "allOf" = some (.array ms) →
  (∃ m, ms = [m]) ∨ ∃ init properties required, ms = init ++ [object properties required]

variable {f arg : Json} {ks extra : Dict Json} {key : String}

theorem propertiesOf_of_none (h : f.get? "properties" = none) : propertiesOf f = [] := by
  rw [propertiesOf, h]
  rfl

theorem Throughout.of_mem_properties {P : Json → Prop} (h : Throughout P f) {e : String × Json}
    (he : e ∈ propertiesOf f) : Throughout P e.2 := by
  rw [propertiesOf] at he
  cases hproperties : f.get? "properties" with
  | none =>
    rw [hproperties] at he
    cases he
  | some arg =>
    rw [hproperties] at he
    exact h.under hproperties (List.mem_map_of_mem he)

/-! ## Built fragments -/

theorem formed_of_remarks (hnodup : (Dict.names ks).Nodup)
    (h : ∀ key ∈ schemaKeys, ks.get? key = none) : Formed (.object ks) := by
  refine ⟨⟨⟨ks, rfl, hnodup⟩, fun arg harg => ?_⟩, alone_of_get? (h _ (by simp [schemaKeys])),
    fun arg harg => ?_⟩
  · cases (h "properties" (by simp [schemaKeys])).symm.trans harg
  · cases (h "allOf" (by simp [schemaKeys])).symm.trans harg

/-- A single keyword but the one of properties. -/
theorem formed_singleton (hkey : key ≠ "properties") : Formed (.object [(key, arg)]) := by
  have hget : ∀ k, key ≠ k → (Json.object [(key, arg)]).get? k = none := fun k hk => if_neg hk
  refine ⟨⟨⟨_, rfl, List.nodup_singleton _⟩, fun a ha => ?_⟩, fun href k hk => ?_, fun a ha => ?_⟩
  · cases (hget _ hkey).symm.trans ha
  · by_cases hrefers : key = refKey
    · exact hget k (hrefers ▸ hk.symm)
    · rw [isReference, hget _ hrefers] at href
      cases href
  · by_cases hall : key = "allOf"
    · subst hall
      exact ⟨rfl, rfl⟩
    · cases (hget _ hall).symm.trans ha

theorem formed_object (properties : Dict Json) (required : List String) :
    Formed (object properties required) := by
  refine ⟨⟨⟨_, rfl, ?_⟩, fun arg harg => ?_⟩, alone_of_get? (get?_object (by decide)),
    fun arg harg => ?_⟩
  · cases required <;> simp [Dict.names]
  · rw [get?_object (by decide)] at harg
    exact ⟨properties, (Option.some.inj harg).symm⟩
  · rw [get?_object (by decide)] at harg
    cases harg

theorem formed_array (f : Json) : Formed (array f) := by
  have hnodup : (Dict.names [("type", .string "array"), ("items", f)]).Nodup := by simp [Dict.names]
  refine ⟨⟨⟨_, rfl, hnodup⟩, fun arg harg => ?_⟩, alone_of_get? rfl, fun arg harg => ?_⟩
  · cases harg
  · cases harg

/-- What is remarked on a fragment leaves its form. -/
theorem Formed.merge (h : Formed f) (hextra : Remarks extra) (htype : "type" ∉ extra.names) :
    Formed (merge f extra) := by
  have hget : ∀ (ks : Dict Json) (k : String), k = "type" ∨ k ∈ schemaKeys →
      (ks.extend extra).get? k = ks.get? k := by
    rintro ks k (rfl | hk)
    · exact Dict.get?_extend_of_notMem htype ks
    · exact get?_extend_of_remarks hextra hk
  rcases merge_cases f extra with hmerge | ⟨ks, hmerge, hks⟩
  · rw [hmerge]
    exact h
  · obtain ⟨hform, href⟩ : Formed (.object ks) ∧ ks.get? refKey = none := by
      rcases hks with ⟨rfl, href⟩ | rfl
      · exact ⟨h, href⟩
      · exact ⟨formed_singleton (by decide), rfl⟩
    obtain ⟨_, hsame, hnodup⟩ := hform.tidy.keywords
    obtain rfl := Json.object.inj hsame
    have hall : (Dict.extend ks extra).get? "allOf" = ks.get? "allOf" :=
      hget _ _ (Or.inr (by simp [schemaKeys]))
    have hproperties : (Dict.extend ks extra).get? "properties" = ks.get? "properties" :=
      hget _ _ (Or.inr (by simp [schemaKeys]))
    rw [hmerge]
    refine ⟨⟨⟨_, rfl, Dict.nodup_names_extend hnodup extra⟩, fun arg harg => ?_⟩,
      alone_of_get? ((hget _ _ (Or.inr (by simp [schemaKeys]))).trans href), fun arg harg => ?_⟩
    · exact hform.tidy.properties arg (hproperties.symm.trans harg)
    · obtain ⟨htype', hnone⟩ := hform.intersects arg (hall.symm.trans harg)
      exact ⟨(hget _ _ (Or.inl rfl)).trans htype', hproperties.trans hnone⟩

/-! ## Documentation -/

/-- What documentation built from other documentation keeps, if `P` is one such property:
intersections apart, there is a field for each way of building. -/
structure Kept (P : Json → Prop) : Prop where
  plain : ∀ ks : Dict Json, ks.names.Nodup → (∀ key ∈ schemaKeys, ks.get? key = none) →
    P (.object ks)
  reference : ∀ name, P (reference name)
  record : ∀ properties required, P (object properties required)
  array : ∀ f, P (array f)
  union : ∀ fs, P (.object [("oneOf", .array fs)])
  remarked : ∀ f extra, P f → Remarks extra → "type" ∉ extra.names → P (Fragment.merge f extra)

theorem kept_formed : Kept Formed where
  plain _ := formed_of_remarks
  reference _ := formed_singleton (by decide)
  record := formed_object
  array := formed_array
  union _ := formed_singleton (by decide)
  remarked _ _ := Formed.merge

theorem settled_of_none (h : f.get? "allOf" = none) : Settled f := by
  intro ms hms
  cases h.symm.trans hms

theorem settled_allOf (f : Json) (properties : Dict Json) (required : List String) :
    Settled (allOf [f, object properties required]) := by
  intro ms hms
  have hlast : splice "allOf" f ++ (splice "allOf" (object properties required) ++ []) = ms :=
    Json.array.inj (Option.some.inj hms)
  rw [← hlast, splice_object]
  exact Or.inr ⟨_, _, _, rfl⟩

theorem kept_settled : Kept Settled where
  plain _ _ h := settled_of_none (h "allOf" (by simp [schemaKeys]))
  reference _ := settled_of_none rfl
  record _ _ := settled_of_none (get?_object (by decide))
  array _ := settled_of_none rfl
  union _ := settled_of_none rfl
  remarked f extra h hextra _ := by
    rcases merge_cases f extra with hmerge | ⟨ks, hmerge, hks⟩
    · rw [hmerge]
      exact h
    · rw [hmerge]
      intro ms hms
      rw [Json.get?, get?_extend_of_remarks hextra (by simp [schemaKeys])] at hms
      rcases hks with ⟨rfl, -⟩ | rfl
      · exact h ms hms
      · exact Or.inl ⟨f, (Json.array.inj (Option.some.inj hms)).symm⟩

theorem Kept.remark {P : Json → Prop} (hP : Kept P) (h : Throughout P f) (hextra : Remarks extra)
    (htype : "type" ∉ extra.names) : Throughout P (Fragment.merge f extra) :=
  h.merge hextra (hP.remarked f extra h.here hextra htype)

theorem Kept.remarkOne {P : Json → Prop} (hP : Kept P) (h : Throughout P f)
    (hkey : key ∉ schemaKeys) (htype : key ≠ "type") : Throughout P (Fragment.mergeOne f key arg) :=
  hP.remark h (remarks_singleton hkey) (by simpa using htype.symm)

theorem Kept.throughout_plain {P : Json → Prop} (hP : Kept P) (hnodup : (Dict.names ks).Nodup)
    (h : ∀ key ∈ schemaKeys, ks.get? key = none) : Throughout P (.object ks) :=
  throughout_of_remarks (hP.plain ks hnodup h) h

/-! ### The fragments of shapes -/

theorem Kept.throughout_type {P : Json → Prop} (hP : Kept P) (name : String) :
    Throughout P (.object [("type", .string name)]) :=
  hP.throughout_plain (List.nodup_singleton _) (by simp [schemaKeys, refKey, Dict.get?])

theorem Kept.throughout_format {P : Json → Prop} (hP : Kept P) (format : String) :
    Throughout P (.object [("type", .string "string"), ("format", .string format)]) :=
  hP.throughout_plain (by simp [Dict.names]) (by simp [schemaKeys, refKey, Dict.get?])

theorem Kept.throughout_null {P : Json → Prop} (hP : Kept P) :
    Throughout P (.object [("nullable", .bool true), ("enum", .array [.null])]) :=
  hP.throughout_plain (by simp [Dict.names]) (by simp [schemaKeys, refKey, Dict.get?])

/-- A record has throughout what the documentation of its declarations in force has. -/
theorem Kept.throughout_record {α : Type} {P : Json → Prop} (hP : Kept P)
    {members : List (Member (Doc α))}
    (h : ∀ m ∈ Member.distinct members, Throughout P m.value.fragment) :
    Throughout P (Doc.record members).fragment := by
  rw [Doc.fragment_record]
  refine throughout_object (hP.record _ _) fun f hf => ?_
  obtain ⟨e, he, rfl⟩ := List.mem_map.1 hf
  obtain ⟨m, hm, rfl⟩ := List.mem_map.1 he
  obtain ⟨key, value, required, description⟩ := m
  cases description with
  | none => exact h _ hm
  | some text => exact hP.remarkOne (h _ hm) (by simp [schemaKeys, refKey]) (by decide)

theorem Kept.throughout_reference {P : Json → Prop} (hP : Kept P) (name : String) :
    Throughout P (Fragment.reference name) :=
  throughout_singleton (hP.reference name) fun g hg => by simp [schemasUnder, refKey] at hg

end Fragment

end JsonShape
