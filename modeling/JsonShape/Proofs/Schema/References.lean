import JsonShape.Interval
import JsonShape.Proofs.Members
import JsonShape.Proofs.Schema.Doc
import JsonShape.Proofs.Schema.Fragment

/-!
# The references of a fragment

A reference counts where a schema is read: in the fragment itself, and in the schemas that stand
under one of four keywords. Keywords of other names may be added to a fragment without adding a
reference to it, and a fragment that is built from smaller ones has the references of those.

* `Fragment.Refers` finds a reference at any depth; `Fragment.RefersWithin` says that all of them
  name components of a list.
* `Fragment.not_refers_of_remarks`, `Fragment.Refers.of_merge`, `Fragment.Refers.of_oneOf`, ...:
  where the references of a built fragment come from.
* `Doc.Covers`: documentation keeps a producer for everything that its fragment refers to.
-/

namespace JsonShape

namespace Fragment

/-- The schemas that stand under the keyword `key`, whose argument is `arg`. -/
def schemasUnder (key : String) (arg : Json) : List Json :=
  if key = "properties" then (arg.members?.getD []).values
  else if key = "items" then [arg]
  else if key = "oneOf" ∨ key = "allOf" then arg.items?.getD []
  else []

/-- `target` is what a reference within the fragment points to. -/
inductive Refers (target : Json) : Json → Prop
  | here {f : Json} (h : f.get? refKey = some target) : Refers target f
  | under {key : String} {f arg g : Json} (h : f.get? key = some arg)
    (hg : g ∈ schemasUnder key arg) (hr : Refers target g) : Refers target f

/-- Everything that `f` refers to is a component of one of these `names`. -/
def RefersWithin (names : List String) (f : Json) : Prop :=
  ∀ target, Refers target f → ∃ name ∈ names, target = .string (componentPrefix ++ name)

/-- The keywords that a reference can stand in or under. -/
def schemaKeys : List String := [refKey, "properties", "items", "oneOf", "allOf"]

variable {target arg f g : Json} {fs : List Json} {ks extra : Dict Json} {key : String}

theorem RefersWithin.mono {names names' : List String} (hsub : names ⊆ names')
    (h : RefersWithin names f) : RefersWithin names' f := by
  intro target hr
  obtain ⟨name, hname, htarget⟩ := h target hr
  exact ⟨name, hsub hname, htarget⟩

theorem mem_schemaKeys (h : g ∈ schemasUnder key arg) : key ∈ schemaKeys := by
  unfold schemasUnder at h
  split at h
  · simp [schemaKeys, *]
  · split at h
    · simp [schemaKeys, *]
    · split at h
      · next hkey => rcases hkey with rfl | rfl <;> simp [schemaKeys]
      · simp at h

/-- A fragment refers to what it points to itself, or to what a schema under a keyword does. -/
theorem refers_object : Refers target (.object ks) ↔ ks.get? refKey = some target ∨
    ∃ key arg g, ks.get? key = some arg ∧ g ∈ schemasUnder key arg ∧ Refers target g := by
  constructor
  · intro h
    cases h with
    | here h => exact Or.inl h
    | under h hg hr => exact Or.inr ⟨_, _, _, h, hg, hr⟩
  · rintro (h | ⟨key, arg, g, h, hg, hr⟩)
    · exact .here h
    · exact .under h hg hr

/-- A fragment that has no keyword for references has none. -/
theorem not_refers_of_remarks (h : ∀ key ∈ schemaKeys, ks.get? key = none) :
    ¬Refers target (.object ks) := by
  intro hr
  rcases refers_object.1 hr with hkey | ⟨key, arg, g, hkey, hg, -⟩
  · simp [h refKey (.head _)] at hkey
  · simp [h key (mem_schemaKeys hg)] at hkey

/-- Two fragments that agree on the keywords for references, `schemaKeys`, refer to the same. -/
theorem Refers.of_get? {ls : Dict Json} (h : ∀ key ∈ schemaKeys, ls.get? key = ks.get? key)
    (hr : Refers target (.object ls)) : Refers target (.object ks) := by
  rcases refers_object.1 hr with hkey | ⟨key, arg, g, hkey, hg, hr⟩
  · exact .here ((h refKey (.head _)).symm.trans hkey)
  · exact .under ((h key (mem_schemaKeys hg)).symm.trans hkey) hg hr

/-- A fragment of one keyword refers to what the schemas under it do. -/
theorem Refers.of_singleton (h : Refers target (.object [(key, arg)])) (hkey : key ≠ refKey) :
    ∃ g ∈ schemasUnder key arg, Refers target g := by
  rcases refers_object.1 h with hget | ⟨k, a, g, hget, hg, hr⟩
  · simp [Dict.get?, hkey] at hget
  · simp only [Dict.get?, Option.ite_none_right_eq_some, Option.some.injEq] at hget
    obtain ⟨rfl, rfl⟩ := hget
    exact ⟨g, hg, hr⟩

/-! ## Added keywords -/

/-- Keywords of which none is for references. -/
def Remarks (extra : Dict Json) : Prop := ∀ key ∈ schemaKeys, key ∉ extra.names

theorem get?_extend_of_remarks (h : Remarks extra) (hkey : key ∈ schemaKeys) :
    (ks.extend extra).get? key = ks.get? key := Dict.get?_extend_of_notMem (h key hkey) ks

theorem Refers.of_wrapped (h : Refers target (.object (wrapped f))) : Refers target f := by
  obtain ⟨g, hg, hr⟩ := h.of_singleton (by simp [refKey])
  have hgf : g = f := List.mem_singleton.1 hg
  exact hgf ▸ hr

/-- Added keywords add no reference, wherever `merge` writes them. -/
theorem Refers.of_merge (hextra : Remarks extra) (h : Refers target (merge f extra)) :
    Refers target f := by
  have hextend : ∀ ks : Dict Json, Refers target (.object (ks.extend extra)) →
      Refers target (.object ks) := fun ks =>
    Refers.of_get? fun _ hkey => get?_extend_of_remarks hextra hkey
  unfold merge at h
  split at h
  · exact h
  · split at h
    · split at h
      · exact (hextend _ h).of_wrapped
      · exact hextend _ h
    · exact (hextend _ h).of_wrapped

theorem remarks_singleton (h : key ∉ schemaKeys) : Remarks [(key, arg)] := by
  intro k hk hmem
  have hkey : k = key := List.mem_singleton.1 hmem
  exact h (hkey ▸ hk)

theorem Refers.of_described {text : String} (h : Refers target (described f text)) :
    Refers target f :=
  h.of_merge (remarks_singleton (by simp [schemaKeys, refKey]))

theorem Refers.of_nullable (h : Refers target (nullable f)) : Refers target f :=
  h.of_merge (remarks_singleton (by simp [schemaKeys, refKey]))

/-- The bounds of an interval are no place for references. -/
theorem remarks_keywords (i : Interval) : Remarks i.keywords := by
  have hend : ∀ (bound strict : String) (e : Endpoint) (key : String),
      key ∈ Dict.names (Interval.endKeywords bound strict e) → key = bound ∨ key = strict := by
    intro bound strict e key hkey
    cases e with
    | unbounded => simp [Interval.endKeywords] at hkey
    | included x => exact Or.inl (by simpa [Interval.endKeywords] using hkey)
    | excluded x => simpa [Interval.endKeywords] using hkey
  intro key hkey hmem
  rw [Interval.keywords, Dict.names, List.map_append, List.mem_append] at hmem
  rcases hmem with hmem | hmem <;> rcases hend _ _ _ _ hmem with rfl | rfl <;>
    simp [schemaKeys, refKey] at hkey

/-! ## References, unions and intersections -/

theorem refers_reference {name : String} :
    Refers target (reference name) ↔ target = .string (componentPrefix ++ name) := by
  rw [reference, refers_object]
  constructor
  · rintro (h | ⟨key, arg, g, h, hg, -⟩)
    · simpa [Dict.get?, eq_comm] using h
    · simp only [Dict.get?, Option.ite_none_right_eq_some, Option.some.injEq] at h
      obtain ⟨rfl, rfl⟩ := h
      simp [schemasUnder, refKey] at hg
  · rintro rfl
    exact Or.inl rfl

/-- What is spliced is the fragment itself, or stands under the one keyword that it has. -/
theorem mem_splice_cases {keyword : String} (hkeyword : keyword = "oneOf" ∨ keyword = "allOf")
    (hg : g ∈ splice keyword f) :
    g = f ∨ ∃ arg, f = .object [(keyword, arg)] ∧ g ∈ schemasUnder keyword arg := by
  rcases splice_cases keyword f with ⟨fs, rfl, hsplice⟩ | hsplice
  · rw [hsplice] at hg
    refine Or.inr ⟨_, rfl, ?_⟩
    rcases hkeyword with rfl | rfl <;> exact hg
  · rw [hsplice] at hg
    exact Or.inl (List.mem_singleton.1 hg)

/-- What a member that `splice` leaves refers to, the member itself does. -/
theorem Refers.of_mem_splice {keyword : String} (hkeyword : keyword = "oneOf" ∨ keyword = "allOf")
    (hg : g ∈ splice keyword f) (h : Refers target g) : Refers target f := by
  rcases mem_splice_cases hkeyword hg with rfl | ⟨arg, rfl, hunder⟩
  · exact h
  · exact .under (if_pos rfl) hunder h

/-- Splicing and dropping equal members add no reference to a union. -/
theorem Refers.of_oneOf (h : Refers target (oneOf fs)) : ∃ f ∈ fs, Refers target f := by
  have hmem : ∀ g ∈ (fs.flatMap (splice "oneOf")).foldl addDistinct [], Refers target g →
      ∃ f ∈ fs, Refers target f := by
    intro g hg hr
    obtain ⟨f, hf, hgf⟩ := exists_of_mem_flat hg
    exact ⟨f, hf, hr.of_mem_splice (Or.inl rfl) hgf⟩
  unfold oneOf at h
  split at h
  · next single heq => exact hmem single (heq ▸ .head _) h
  · obtain ⟨g, hg, hr⟩ := h.of_singleton (by simp [refKey])
    exact hmem g hg hr

theorem Refers.of_allOf (h : Refers target (allOf fs)) : ∃ f ∈ fs, Refers target f := by
  obtain ⟨g, hg, hr⟩ := Refers.of_singleton h (by simp [refKey])
  obtain ⟨f, hf, hgf⟩ := List.mem_flatMap.1 hg
  exact ⟨f, hf, hr.of_mem_splice (Or.inr rfl) hgf⟩

/-! ## Records and arrays -/

theorem Refers.of_object {properties : Dict Json} {required : List String}
    (h : Refers target (object properties required)) :
    ∃ f ∈ properties.values, Refers target f := by
  have hget : ∀ key ∈ schemaKeys, Dict.get? ([("type", .string "object"),
      ("properties", .object properties)] ++
      (if required.isEmpty then [] else [("required", .array (required.map .string))])) key =
        Dict.get? [("properties", Json.object properties)] key := by
    intro key hkey
    simp only [schemaKeys, List.mem_cons, List.not_mem_nil, or_false] at hkey
    rcases hkey with rfl | rfl | rfl | rfl | rfl <;> cases required <;> rfl
  exact (h.of_get? hget).of_singleton (by simp [refKey])

theorem Refers.of_array (h : Refers target (array f)) : Refers target f := by
  have hget : ∀ key ∈ schemaKeys, Dict.get? [("type", Json.string "array"), ("items", f)] key =
      Dict.get? [("items", f)] key := by
    intro key hkey
    simp only [schemaKeys, List.mem_cons, List.not_mem_nil, or_false] at hkey
    rcases hkey with rfl | rfl | rfl | rfl | rfl <;> rfl
  obtain ⟨g, hg, hr⟩ := (h.of_get? hget).of_singleton (by simp [refKey])
  have hgf : g = f := List.mem_singleton.1 hg
  exact hgf ▸ hr

end Fragment

/-! ## Documentation -/

namespace Doc

open Fragment

variable {α : Type} {d : Doc α} {docs : List (Doc α)}

/-- Everything that the fragment of `d` refers to is a component with a producer in `found`. -/
def Covers (d : Doc α) : Prop := RefersWithin d.found.names d.fragment

theorem covers_of_remarks {ks : Dict Json} (h : ∀ key ∈ schemaKeys, ks.get? key = none)
    (found : Dict α) : Covers ⟨.object ks, found⟩ :=
  fun _ hr => absurd hr (not_refers_of_remarks h)

theorem covers_reference (name : String) (producer : α) : Covers (reference name producer) :=
  fun _ hr => ⟨name, .head _, refers_reference.1 hr⟩

theorem Covers.mapFragment {f : Json → Json}
    (hf : ∀ target g, Refers target (f g) → Refers target g) (h : Covers d) :
    Covers (d.mapFragment f) :=
  fun target hr => h target (hf target _ hr)

theorem Covers.described (h : Covers d) (text : String) : Covers (d.described text) :=
  h.mapFragment fun _ _ => Refers.of_described

theorem Covers.merge {extra : Dict Json} (hextra : Remarks extra) (h : Covers d) :
    Covers (d.merge extra) :=
  h.mapFragment fun _ _ => Refers.of_merge hextra

/-- What is built from several covers its references, if it has only theirs. -/
theorem covers_combine {f : List Json → Json}
    (hf : ∀ target, Refers target (f (docs.map fragment)) → ∃ d ∈ docs, Refers target d.fragment)
    (h : ∀ d ∈ docs, Covers d) : Covers (combine docs f) := by
  intro target hr
  obtain ⟨d, hd, hdr⟩ := hf target hr
  obtain ⟨name, hname, htarget⟩ := h d hd target hdr
  exact ⟨name, mem_names_combine.2 ⟨d, hd, hname⟩, htarget⟩

theorem covers_combine_oneOf (h : ∀ d ∈ docs, Covers d) :
    Covers (combine docs Fragment.oneOf) := by
  refine covers_combine (fun target hr => ?_) h
  obtain ⟨f, hf, hfr⟩ := hr.of_oneOf
  obtain ⟨d, hd, rfl⟩ := List.mem_map.1 hf
  exact ⟨d, hd, hfr⟩

theorem covers_oneOf {a b : Doc α} (ha : Covers a) (hb : Covers b) : Covers (oneOf a b) :=
  covers_combine_oneOf (List.forall_mem_cons.2 ⟨ha, List.forall_mem_singleton.2 hb⟩)

theorem covers_allOf {a b : Doc α} (ha : Covers a) (hb : Covers b) : Covers (allOf a b) := by
  refine covers_combine (fun target hr => ?_)
    (List.forall_mem_cons.2 ⟨ha, List.forall_mem_singleton.2 hb⟩)
  obtain ⟨f, hf, hfr⟩ := hr.of_allOf
  obtain ⟨d, hd, rfl⟩ := List.mem_map.1 hf
  exact ⟨d, hd, hfr⟩

theorem covers_ofMember {m : Member (Doc α)} (h : Covers m.value) : Covers (ofMember m) := by
  unfold ofMember
  split
  · exact h.described _
  · exact h

theorem covers_record {members : List (Member (Doc α))} (h : ∀ m ∈ members, Covers m.value) :
    Covers (record members) := by
  refine covers_combine (fun target hr => ?_) (fun d hd => ?_)
  · obtain ⟨f, hf, hfr⟩ := hr.of_object
    -- a fragment under a name is the one of a member
    obtain ⟨e, he, rfl⟩ := List.mem_map.1 hf
    obtain ⟨d, hd, hde⟩ := List.mem_map.1 (List.of_mem_zip he).2
    exact ⟨d, hd, hde ▸ hfr⟩
  · obtain ⟨m, hm, rfl⟩ := List.mem_map.1 hd
    exact covers_ofMember (h m (Member.mem_of_mem_distinct hm))

end Doc

end JsonShape
