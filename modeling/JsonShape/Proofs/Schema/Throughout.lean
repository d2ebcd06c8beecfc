import JsonShape.Node.Render
import JsonShape.Proofs.Schema.References

/-!
# What holds throughout a fragment

A property can be asked of every schema within a fragment: of the fragment itself, and of those that
stand under its keywords, at any depth (`Fragment.Throughout`). A fragment that is built from others
has it throughout if they have and the fragment itself does.

`Fragment.ProperUnion` is such a property, of what is listed under `oneOf`. Only that keyword counts
for it, so a fragment keeps it when others are added. A reference is wrapped when a keyword is
added; where it stood alone before (`Fragment.Alone`), nothing is lost by that.
-/

namespace JsonShape

namespace Fragment

variable {P : Json → Prop} {f arg : Json} {fs : List Json} {ks : Dict Json} {key k : String}

/-- `P` holds of the fragment and of every schema within it, at any depth. -/
inductive Throughout (P : Json → Prop) : Json → Prop
  | intro {f : Json} (here : P f)
    (under : ∀ key arg g, f.get? key = some arg → g ∈ schemasUnder key arg → Throughout P g) :
    Throughout P f

theorem Throughout.here (h : Throughout P f) : P f := by
  cases h with
  | intro here _ => exact here

theorem Throughout.under {g : Json} (h : Throughout P f) (harg : f.get? key = some arg)
    (hg : g ∈ schemasUnder key arg) : Throughout P g := by
  cases h with
  | intro _ under => exact under key arg g harg hg

theorem Throughout.mono {Q : Json → Prop} (hPQ : ∀ g, P g → Q g) (h : Throughout P f) :
    Throughout Q f := by
  induction h with
  | intro here _ ih => exact .intro (hPQ _ here) ih

/-- Components throughout each of which `P` holds. -/
def ThroughoutAll (P : Json → Prop) (components : Dict Json) : Prop :=
  ∀ n t, components.get? n = some t → Throughout P t

theorem ThroughoutAll.mono {Q : Json → Prop} (hPQ : ∀ g, P g → Q g) (h : ThroughoutAll P ks) :
    ThroughoutAll Q ks :=
  fun n t ht => (h n t ht).mono hPQ

theorem ThroughoutAll.erase (h : ThroughoutAll P ks) (name : String) :
    ThroughoutAll P (ks.erase name) :=
  fun n t ht => h n t (Dict.erase_le ks name n t ht)

/-- Where a fragment refers is where what is within it refers. -/
theorem Throughout.refersWithin {names : List String} (h : Throughout P f)
    (hf : RefersWithin names f) : Throughout (RefersWithin names) f := by
  induction h with
  | intro _ _ ih =>
    exact .intro hf fun key arg g harg hg =>
      ih key arg g harg hg fun target ht => hf target (.under harg hg ht)

/-- Of a fragment without schemas under its keywords, only the fragment is asked. -/
theorem throughout_of_remarks (hP : P (.object ks)) (h : ∀ key ∈ schemaKeys, ks.get? key = none) :
    Throughout P (.object ks) := by
  refine .intro hP fun key arg g harg hg => ?_
  have hnone : ks.get? key = none := h key (mem_schemaKeys hg)
  simp [Json.get?, hnone] at harg

/-- Of a fragment of one keyword, the fragment is asked and what stands under the keyword. -/
theorem throughout_singleton (hP : P (.object [(key, arg)]))
    (h : ∀ g ∈ schemasUnder key arg, Throughout P g) : Throughout P (.object [(key, arg)]) := by
  refine .intro hP fun k a g ha hg => ?_
  simp only [Json.get?, Dict.get?, Option.ite_none_right_eq_some, Option.some.injEq] at ha
  obtain ⟨rfl, rfl⟩ := ha
  exact h g hg

/-- Keywords are written into a fragment that is no reference, or into one that wraps it. -/
theorem merge_cases (f : Json) (extra : Dict Json) : merge f extra = f ∨ ∃ ks : Dict Json,
    merge f extra = .object (ks.extend extra) ∧
      (f = .object ks ∧ ks.get? refKey = none ∨ ks = wrapped f) := by
  unfold merge
  split
  · exact Or.inl rfl
  · split
    · next ms =>
      split
      · exact Or.inr ⟨_, rfl, Or.inr rfl⟩
      · next href =>
        refine Or.inr ⟨_, rfl, Or.inl ⟨rfl, ?_⟩⟩
        exact Dict.get?_eq_none_iff.2 fun hmem => href (Dict.contains_iff.2 hmem)
    · exact Or.inr ⟨_, rfl, Or.inr rfl⟩

/-- Keywords that are added bring no schema with them, so `P` has to hold of the whole only. -/
theorem Throughout.merge (h : Throughout P f) {extra : Dict Json} (hextra : Remarks extra)
    (hP : P (merge f extra)) : Throughout P (merge f extra) := by
  rcases merge_cases f extra with hmerge | ⟨ks, hmerge, hks⟩
  · rw [hmerge]
    exact h
  · rw [hmerge] at hP ⊢
    refine .intro hP fun k a g ha hg => ?_
    rw [Json.get?, get?_extend_of_remarks hextra (mem_schemaKeys hg)] at ha
    rcases hks with ⟨rfl, -⟩ | rfl
    · exact h.under ha hg
    · -- all that stands in a wrapped fragment is the fragment
      simp only [wrapped, Dict.get?, Option.ite_none_right_eq_some, Option.some.injEq] at ha
      obtain ⟨rfl, rfl⟩ := ha
      exact List.mem_singleton.1 hg ▸ h

theorem Throughout.mergeOne (h : Throughout P f) (hkey : key ∉ schemaKeys)
    (hP : P (mergeOne f key arg)) : Throughout P (mergeOne f key arg) :=
  h.merge (remarks_singleton hkey) hP

theorem get?_object {properties : Dict Json} {required : List String} (hkey : key ≠ "required") :
    (object properties required).get? key =
      Dict.get? [("type", .string "object"), ("properties", .object properties)] key := by
  rw [object, Json.get?, Dict.get?_append]
  cases required with
  | nil => simp
  | cons k rest => simp [Dict.get?, Ne.symm hkey]

theorem splice_object (keyword : String) (properties : Dict Json) (required : List String) :
    splice keyword (object properties required) = [object properties required] := by
  cases required <;> rfl

theorem throughout_object {properties : Dict Json} {required : List String}
    (hP : P (object properties required)) (h : ∀ f ∈ properties.values, Throughout P f) :
    Throughout P (object properties required) := by
  refine .intro hP fun key arg g harg hg => ?_
  have hkey : key ≠ "required" := fun heq => by
    simpa [heq, schemaKeys, refKey] using mem_schemaKeys hg
  rw [get?_object hkey] at harg
  simp only [Dict.get?] at harg
  split at harg
  · next htype => exact absurd (mem_schemaKeys hg) (by simp [← htype, schemaKeys, refKey])
  · simp only [Option.ite_none_right_eq_some, Option.some.injEq] at harg
    obtain ⟨rfl, rfl⟩ := harg
    exact h g hg

theorem throughout_array (hP : P (array f)) (h : Throughout P f) : Throughout P (array f) := by
  refine .intro hP fun key arg g harg hg => ?_
  simp only [array, Json.get?, Dict.get?] at harg
  split at harg
  · next htype => exact absurd (mem_schemaKeys hg) (by simp [← htype, schemaKeys, refKey])
  · simp only [Option.ite_none_right_eq_some, Option.some.injEq] at harg
    obtain ⟨rfl, rfl⟩ := harg
    exact List.mem_singleton.1 hg ▸ h

theorem Throughout.of_mem_splice {keyword : String} {g : Json}
    (hkeyword : keyword = "oneOf" ∨ keyword = "allOf") (h : Throughout P f)
    (hg : g ∈ splice keyword f) : Throughout P g := by
  rcases mem_splice_cases hkeyword hg with rfl | ⟨arg, rfl, hunder⟩
  · exact h
  · exact h.under (if_pos rfl) hunder

theorem throughout_allOf (hP : P (allOf fs)) (h : ∀ f ∈ fs, Throughout P f) :
    Throughout P (allOf fs) := by
  refine throughout_singleton hP fun g hg => ?_
  obtain ⟨f, hf, hgf⟩ := List.mem_flatMap.1 hg
  exact (h f hf).of_mem_splice (Or.inr rfl) hgf

theorem throughout_oneOf (hP : ∀ fs, P (.object [("oneOf", .array fs)]))
    (h : ∀ f ∈ fs, Throughout P f) : Throughout P (oneOf fs) := by
  have hflat : ∀ g ∈ (fs.flatMap (splice "oneOf")).foldl addDistinct [], Throughout P g := by
    intro g hg
    obtain ⟨f, hf, hgf⟩ := exists_of_mem_flat hg
    exact (h f hf).of_mem_splice (Or.inl rfl) hgf
  unfold oneOf
  split
  · next single heq => exact hflat single (heq ▸ .head _)
  · exact throughout_singleton (hP _) hflat

/-! ## Added keywords -/

/-- A keyword that is added leaves the others as they are, but for those that stand beside a
reference: it is wrapped. -/
theorem get?_mergeOne (hk : key ≠ k) (hall : "allOf" ≠ k) :
    (mergeOne f key arg).get? k = if isReference f then none else f.get? k := by
  have hwrapped : (Dict.insert (wrapped f) key arg).get? k = none := by
    rw [Dict.get?_insert, if_neg hk, wrapped, Dict.get?, if_neg hall, Dict.get?_nil]
  cases f with
  | object ms =>
    have hmerge : mergeOne (.object ms) key arg = if Dict.contains ms refKey then
        .object (Dict.insert (wrapped (.object ms)) key arg)
      else .object (Dict.insert ms key arg) := rfl
    have href : isReference (.object ms) = Dict.contains ms refKey := rfl
    rw [hmerge, href]
    split
    · exact hwrapped
    · exact (Dict.get?_insert ms key k arg).trans (if_neg hk)
  | _ => exact hwrapped

/-- If `f` is a reference, it stands alone in its fragment. -/
def Alone (f : Json) : Prop := isReference f → ∀ key ≠ refKey, f.get? key = none

theorem alone_of_get? (h : f.get? refKey = none) : Alone f := by
  intro href
  simp [isReference, h] at href

/-- A keyword that is added to a reference that stands alone changes no other one but `allOf`. -/
theorem get?_mergeOne_of_alone (h : Alone f) (hk : key ≠ k) (hall : "allOf" ≠ k)
    (href : k ≠ refKey) : (mergeOne f key arg).get? k = f.get? k := by
  rw [get?_mergeOne hk hall]
  split
  · next hreference => exact (h hreference k href).symm
  · rfl

/-- What a keyword is added to is no reference afterwards. -/
theorem alone_mergeOne (hkey : key ≠ refKey) : Alone (mergeOne f key arg) := by
  intro h
  rw [isReference, get?_mergeOne hkey (by simp [refKey])] at h
  split at h
  · cases h
  · next hreference => exact absurd h hreference

/-! ## Unions -/

/-- A member that may be listed in a union: neither the type of null nor a bare `oneOf`. -/
def ProperMember (f : Json) : Prop := f ≠ Node.nullFragment ∧ ∀ arg, f ≠ .object [("oneOf", arg)]

/-- What is listed under `oneOf`, if it is there, are at least two members, each of which may be
listed in a union (`ProperMember`). -/
def ProperUnion (f : Json) : Prop := ∀ arg, f.get? "oneOf" = some arg →
  ∃ members, arg = .array members ∧ 2 ≤ members.length ∧ ∀ m ∈ members, ProperMember m

theorem properUnion_of_none (h : f.get? "oneOf" = none) : ProperUnion f := by
  intro arg harg
  simp [h] at harg

theorem properUnion_oneOf (hlength : 2 ≤ fs.length) (h : ∀ f ∈ fs, ProperMember f) :
    ProperUnion (.object [("oneOf", .array fs)]) := by
  intro arg harg
  exact ⟨fs, (Option.some.inj harg).symm, hlength, h⟩

theorem Throughout.mergeOne_properUnion (h : Throughout ProperUnion f) (hkey : key ∉ schemaKeys) :
    Throughout ProperUnion (Fragment.mergeOne f key arg) := by
  refine h.mergeOne hkey ?_
  have hne : key ≠ "oneOf" := fun heq => hkey (by simp [heq, schemaKeys])
  rw [ProperUnion, get?_mergeOne hne (by simp)]
  split
  · exact fun arg harg => by cases harg
  · exact h.here

end Fragment

end JsonShape
