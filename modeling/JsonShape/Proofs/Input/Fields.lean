import JsonShape.Proofs.Input.Components
import JsonShape.Proofs.Schema.Parameter
import JsonShape.Proofs.Schema.Throughout

/-!
# Basic fields

Text, numbers, whole numbers and truth values are documented by scalar fragments, and remain so when
they are described, made optional or refined (`Input.Basic.isScalar`). A record of such members is
documented by a fragment that mentions no component (`Input.doc_object`).
-/

namespace JsonShape

namespace Fragment

theorem type_notMem_keywords (i : Interval) : "type" ∉ Dict.names i.keywords := by
  obtain ⟨lower, upper⟩ := i
  cases lower <;> cases upper <;> simp [Interval.keywords, Interval.endKeywords]

end Fragment

namespace Input

open Fragment (Remarks remarks_singleton schemaKeys refKey)

variable [Regex.Engine] {i : Input} {extra : Dict Json} {d : Doc Input}

/-! ## Basic fields -/

/-- Text, numbers, whole numbers and truth values, possibly described, optional or refined, any
number of times over. -/
inductive Basic : Input → Prop
  | text (format : Option String) : Basic (.text format)
  | number : Basic .number
  | integer : Basic .integer
  | boolean : Basic .boolean
  | described {i : Input} (h : Basic i) (text : String) : Basic (.described i text)
  | optional {i : Input} (h : Basic i) : Basic (.optional i)
  | enum {i : Input} (h : Basic i) (values : List Json) : Basic (.enum i values)
  | pattern {i : Input} (h : Basic i) (regex : Regex) : Basic (.pattern i regex)
  | inRange {i : Input} (h : Basic i) (interval : Interval) : Basic (.inRange i interval)
  | multipleOf {i : Input} (h : Basic i) (factor : Binary64) : Basic (.multipleOf i factor)

/-- Documentation by a scalar fragment (`Parameter.Scalar`) that mentions nothing. -/
def IsScalar (d : Doc Input) : Prop := ∃ ks, d = .plain (.object ks) ∧ Parameter.Scalar ks

theorem isScalar_typed {name : String} (hobject : name ≠ "object") (harray : name ≠ "array") :
    IsScalar (typed name) :=
  ⟨_, rfl, rfl, rfl, rfl, name, rfl, hobject, harray⟩

theorem IsScalar.merge (h : IsScalar d) (hextra : Remarks extra) (htype : "type" ∉ extra.names) :
    IsScalar (d.merge extra) := by
  obtain ⟨ks, rfl, hks⟩ := h
  exact ⟨Dict.extend ks extra, congrArg Doc.plain (hks.merge_eq extra), hks.extend hextra htype⟩

/-- A single remark, which is not on the type. -/
theorem IsScalar.mergeOne (h : IsScalar d) {key : String} {arg : Json} (hkey : key ∉ schemaKeys)
    (htype : key ≠ "type") : IsScalar (d.merge [(key, arg)]) :=
  h.merge (remarks_singleton hkey) (by simpa using htype.symm)

/-- **A basic field is documented by a scalar fragment**, whatever lookups mean. -/
theorem Basic.isScalar (h : i.Basic) (deferred : String → Doc Input) :
    IsScalar (docWith deferred i) := by
  induction h with
  | text format =>
    cases format with
    | none => exact isScalar_typed (by decide) (by decide)
    | some format => exact ⟨_, rfl, rfl, rfl, rfl, "string", rfl, by decide, by decide⟩
  | number | integer | boolean => exact isScalar_typed (by decide) (by decide)
  | described _ text ih => exact ih.mergeOne (by simp [schemaKeys, refKey]) (by decide)
  | optional _ ih => exact ih.mergeOne (by simp [schemaKeys, refKey]) (by decide)
  | enum _ values ih => exact ih.mergeOne (by simp [schemaKeys, refKey]) (by decide)
  | pattern _ regex ih => exact ih.mergeOne (by simp [schemaKeys, refKey]) (by decide)
  | inRange _ interval ih =>
    exact ih.merge (Fragment.remarks_keywords interval) (Fragment.type_notMem_keywords interval)
  | multipleOf _ factor ih => exact ih.mergeOne (by simp [schemaKeys, refKey]) (by decide)

/-- The key of a declaration, with its documentation. -/
def entry (defs : Dict Input) (m : Member Input) : String × Json :=
  (m.key, (Doc.ofMember (m.map (doc defs))).fragment)

theorem Basic.isScalar_ofMember {m : Member Input} (h : m.value.Basic) (defs : Dict Input) :
    IsScalar (Doc.ofMember (m.map (doc defs))) := by
  have hvalue : IsScalar (doc defs m.value) := by
    rw [doc, docAt_eq]
    exact h.isScalar _
  obtain ⟨key, value, required, description⟩ := m
  cases description with
  | none => exact hvalue
  | some text => exact hvalue.mergeOne (by simp [schemaKeys, refKey]) (by decide)

/-- A record with basic members `own` is documented by a record fragment that mentions nothing. -/
theorem doc_object (defs : Dict Input) {own : List (Member Input)}
    (hbasic : ∀ m ∈ own, m.value.Basic) (hnodup : (Member.keys own).Nodup) :
    doc defs (.object own) =
      .plain (Fragment.object (own.map (entry defs))
        (Member.keys (own.filter Member.required))) := by
  have hdoc : doc defs (.object own) = .record (own.map (Member.map (doc defs))) := by
    rw [doc, docAt_eq, docWith_object]
    refine congrArg Doc.record (List.map_congr_left fun m _ => ?_)
    rw [withDoc, ← docAt_eq]
    rfl
  have hkeys : Member.keys (own.map (Member.map (doc defs))) = Member.keys own := List.map_map
  have hdistinct : Member.distinct (own.map (Member.map (doc defs))) =
      own.map (Member.map (doc defs)) := Member.distinct_of_nodup (hkeys ▸ hnodup)
  have hfound : (Doc.record (own.map (Member.map (doc defs)))).found = [] := by
    refine List.eq_nil_iff_forall_not_mem.2 fun e he => ?_
    obtain ⟨d, hd, he⟩ := Doc.mem_found_combine he
    rw [hdistinct, List.map_map] at hd
    obtain ⟨m, hm, rfl⟩ := List.mem_map.1 hd
    obtain ⟨ks, hks, -⟩ := (hbasic m hm).isScalar_ofMember defs
    rw [Function.comp_apply, hks] at he
    cases he
  have hfragment : (Doc.record (own.map (Member.map (doc defs)))).fragment =
      Fragment.object (own.map (entry defs)) (Member.keys (own.filter Member.required)) := by
    rw [Doc.fragment_record, hdistinct, List.map_map, List.filter_map, List.map_map]
    rfl
  rw [hdoc, Doc.plain, ← hfragment, ← hfound]

end Input

end JsonShape
