import JsonShape.Proofs.Distinct
import JsonShape.Proofs.Schema.Doc
import JsonShape.Proofs.Schema.Throughout

/-!
# Unions of unions and intersections of intersections

A union that is a member of another one is spliced, one level deep. That is enough where no member
of a union is a bare union itself (`Fragment.Flat`), and unions that are built from flat fragments
are flat. So a union of unions is the union of all members (`oneOf_append`), whichever of them
have been put together before, and the same is true of intersections (`allOf_append`) and of the
components that are found (`Doc.found_combine_append`).
-/

namespace JsonShape

namespace Fragment

variable {keyword : String} {f g : Json} {fs gs : List Json} {extra : Dict Json}

/-- A fragment that consists of one list under `keyword`, and nothing beside it. -/
def Bare (keyword : String) (f : Json) : Prop := ∃ fs, f = .object [(keyword, .array fs)]

/-- No list stands within another one: what `splice` makes of `f` is not spliced any further. -/
def Flat (keyword : String) (f : Json) : Prop := ∀ g ∈ splice keyword f, ¬Bare keyword g

theorem splice_bare (keyword : String) (fs : List Json) :
    splice keyword (.object [(keyword, .array fs)]) = fs := by
  rw [splice, if_pos rfl]

theorem splice_of_not_bare (h : ¬Bare keyword f) : splice keyword f = [f] :=
  (splice_cases keyword f).resolve_left fun ⟨fs, hf, _⟩ => h ⟨fs, hf⟩

theorem flat_of_not_bare (h : ¬Bare keyword f) : Flat keyword f := by
  rw [Flat, splice_of_not_bare h]
  exact List.forall_mem_singleton.2 h

theorem flat_bare_iff : Flat keyword (.object [(keyword, .array fs)]) ↔
    ∀ g ∈ fs, ¬Bare keyword g := by
  rw [Flat, splice_bare]

theorem not_bare_of_get? (h : f.get? keyword = none) : ¬Bare keyword f := by
  rintro ⟨fs, rfl⟩
  rw [Json.get?, Dict.get?, if_pos rfl] at h
  cases h

/-! ## Flat fragments -/

theorem flat_of_get? (h : f.get? keyword = none) : Flat keyword f :=
  flat_of_not_bare (not_bare_of_get? h)

/-- A fragment with another keyword beside its list is not spliced, so a remark keeps it `Flat`. -/
theorem flat_merge (h : Flat keyword f) (hextra : keyword ∉ extra.names) :
    Flat keyword (merge f extra) := by
  rcases merge_cases f extra with hmerge | ⟨ks, hmerge, -⟩
  · rw [hmerge]
    exact h
  · cases extra with
    | nil => exact h
    | cons e rest =>
      rw [hmerge]
      refine flat_of_not_bare ?_
      rintro ⟨fs, hbare⟩
      have hmem : e.1 ∈ (ks.extend (e :: rest)).names :=
        Dict.mem_names_extend.2 (Or.inr List.mem_cons_self)
      rw [Json.object.inj hbare, Dict.names_cons, Dict.names_nil, List.mem_singleton] at hmem
      rw [Dict.names_cons, List.mem_cons, not_or] at hextra
      exact hextra.1 hmem.symm

theorem flat_mergeOne {key : String} {arg : Json} (h : Flat keyword f) (hkey : key ≠ keyword) :
    Flat keyword (mergeOne f key arg) :=
  flat_merge h (by simpa using hkey.symm)

/-! ## Intersections -/

/-- **An intersection of intersections is the intersection of all members**, for any `gs` and
wherever it stands. -/
theorem allOf_append (fs gs hs : List Json) :
    allOf (fs ++ allOf gs :: hs) = allOf (fs ++ (gs ++ hs)) := by
  rw [allOf, allOf, allOf, List.flatMap_append, List.flatMap_cons, splice_bare,
    List.flatMap_append, List.flatMap_append]

theorem flat_allOf (h : ∀ f ∈ fs, Flat "allOf" f) : Flat "allOf" (allOf fs) := by
  rw [allOf, flat_bare_iff]
  intro g hg
  obtain ⟨f, hf, hgf⟩ := List.mem_flatMap.1 hg
  exact h f hf g hgf

/-! ## Unions -/

theorem not_bare_of_mem_members (h : ∀ f ∈ fs, Flat "oneOf" f)
    (hg : g ∈ (fs.flatMap (splice "oneOf")).foldl addDistinct []) : ¬Bare "oneOf" g := by
  obtain ⟨f, hf, hgf⟩ :=
    List.mem_flatMap.1 ((addsNew_addDistinct.mem_of_mem_foldl hg).resolve_left List.not_mem_nil)
  exact h f hf g hgf

/-- What is spliced for a union are its members. -/
theorem splice_oneOf (h : ∀ f ∈ fs, Flat "oneOf" f) :
    splice "oneOf" (oneOf fs) = (fs.flatMap (splice "oneOf")).foldl addDistinct [] := by
  unfold oneOf
  split
  · next single heq =>
    rw [heq, splice_of_not_bare]
    exact not_bare_of_mem_members h (heq ▸ List.mem_singleton_self single)
  · exact splice_bare _ _

theorem flat_oneOf (h : ∀ f ∈ fs, Flat "oneOf" f) : Flat "oneOf" (oneOf fs) := by
  intro g hg
  rw [splice_oneOf h] at hg
  exact not_bare_of_mem_members h hg

theorem oneOf_congr (h : (fs.flatMap (splice "oneOf")).foldl addDistinct [] =
    (gs.flatMap (splice "oneOf")).foldl addDistinct []) : oneOf fs = oneOf gs := by
  unfold oneOf
  rw [h]

/-- **A union of unions is the union of all members**, if those of the inner one are `Flat`:
repetitions are dropped either way. -/
theorem oneOf_append (fs : List Json) (h : ∀ g ∈ gs, Flat "oneOf" g) (hs : List Json) :
    oneOf (fs ++ oneOf gs :: hs) = oneOf (fs ++ (gs ++ hs)) := by
  apply oneOf_congr
  simp only [List.flatMap_append, List.flatMap_cons, List.foldl_append, splice_oneOf h,
    addsNew_addDistinct.foldl_foldl]

end Fragment

/-! ## Components that are found -/

namespace Doc

variable {α : Type} {f : List Json → Json}

/-- **What is found in documentation is found as if it had not been put together before**, whatever
`f` and `g` make of the fragments. -/
theorem found_combine_append (as bs cs : List (Doc α)) (f g : List Json → Json) :
    (combine (as ++ combine bs f :: cs) g).found = (combine (as ++ (bs ++ cs)) g).found := by
  simp only [found_combine, List.flatMap_append, List.flatMap_cons, List.foldl_append,
    Dict.addsNew_absorbOne.foldl_foldl]

/-- Documentation can be put together in portions if its fragments can. -/
theorem combine_append (as bs cs : List (Doc α))
    (h : f (as.map fragment ++ f (bs.map fragment) :: cs.map fragment) =
      f (as.map fragment ++ (bs.map fragment ++ cs.map fragment))) :
    combine (as ++ combine bs f :: cs) f = combine (as ++ (bs ++ cs)) f := by
  refine congrArg₂ Doc.mk ?_ (found_combine_append as bs cs f f)
  rw [List.map_append, List.map_cons, List.map_append, List.map_append]
  exact h

variable {a b c : Doc α}

/-- **Unions of flat documentation are associative**, as to fragments and to what is mentioned, in
this order. -/
theorem oneOf_assoc (ha : Fragment.Flat "oneOf" a.fragment) (hb : Fragment.Flat "oneOf" b.fragment)
    (hc : Fragment.Flat "oneOf" c.fragment) : oneOf (oneOf a b) c = oneOf a (oneOf b c) := by
  have hleft : oneOf (oneOf a b) c = combine [a, b, c] Fragment.oneOf := by
    refine combine_append [] [a, b] [c] (Fragment.oneOf_append [] ?_ _)
    simpa using ⟨ha, hb⟩
  have hright : oneOf a (oneOf b c) = combine [a, b, c] Fragment.oneOf := by
    refine combine_append [a] [b, c] [] (Fragment.oneOf_append _ ?_ [])
    simpa using ⟨hb, hc⟩
  exact hleft.trans hright.symm

/-- **Intersections of documentation are associative**, as to fragments and to what is mentioned, in
this order. -/
theorem allOf_assoc (a b c : Doc α) : allOf (allOf a b) c = allOf a (allOf b c) := by
  have hleft : allOf (allOf a b) c = combine [a, b, c] Fragment.allOf :=
    combine_append [] [a, b] [c] (Fragment.allOf_append [] _ _)
  have hright : allOf a (allOf b c) = combine [a, b, c] Fragment.allOf :=
    combine_append [a] [b, c] [] (Fragment.allOf_append _ _ [])
  exact hleft.trans hright.symm

end Doc

end JsonShape
