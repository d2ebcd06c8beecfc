import JsonShape.Proofs.Schema.Merged

/-!
# What is refused as a parameter

A property is refused if the fragment that it stands for has properties, or a type that its place
refuses. What is read of an accepted property through references and intersections has no such type,
unless another type is read beside it (`of_reads_refused`), which does not happen where
intersections end in records (`not_refused_of_reads`). Unions are not looked into
(`Reads.behindUnion`).
-/

namespace JsonShape

namespace Parameter

open Fragment

variable {components : Dict Json} {f g : Json} {required : List String} {location : Location}
  {name : String} {p : Parameter} {ps : List Parameter}

/-! ## What is refused -/

/-- The type of `f` is one that is refused in its place: an object anywhere, and an array in a
path. -/
def Refused (location : Location) (f : Json) : Prop :=
  f.get? "type" = some (.string "object") ∨
    location = .path ∧ f.get? "type" = some (.string "array")

/-- Of the types that are read of `f` through references and intersections, one is not `Refused`. -/
def Overruled (location : Location) (components : Dict Json) (f : Json) : Prop :=
  ∃ g, Reads ["allOf"] components f g ∧ (g.get? "type").isSome ∧ ¬Refused location g

/-- `g` is read from a member of a union that is read from `f`. -/
def BehindUnion (components : Dict Json) (f g : Json) : Prop :=
  ∃ union members m, Reads ["allOf"] components f union ∧
    union.get? "oneOf" = some (.array members) ∧ m ∈ members ∧
    Reads ["allOf", "oneOf"] components m g

theorem Refused.exists_type (h : Refused location f) : ∃ v, f.get? "type" = some v :=
  h.elim (fun h => ⟨_, h⟩) fun h => ⟨_, h.2⟩

theorem Refused.of_type (h : Refused location f) (htype : f.get? "type" = g.get? "type") :
    Refused location g := by
  rwa [Refused, ← htype]

theorem hasType_iff : hasType f name ↔ f.get? "type" = some (.string name) := by
  rw [hasType, decide_eq_true_iff, Option.bind_eq_some_iff]
  simp [Json.string?_eq_some_iff]

/-- What a parameter stands for has no properties and no type that is `Refused`. -/
theorem of_ofProperty (h : ofProperty components required location name f = .ok p) :
    p.schema = f ∧ propertiesOf (shape components f) = [] ∧
      ¬Refused location (shape components f) := by
  dsimp only [ofProperty] at h
  split at h
  · cases h
  · next haccepted =>
    obtain ⟨hobject, harray⟩ := not_or.1 haccepted
    rw [isObject, Bool.or_eq_true, not_or, hasType_iff] at hobject
    obtain rfl := Except.ok.inj h
    refine ⟨rfl, propertiesOf_of_none (by simpa using hobject.2), ?_⟩
    rintro (htype | ⟨hpath, htype⟩)
    · exact hobject.1 htype
    · exact harray ⟨hasType_iff.2 htype, hpath⟩

/-- Each parameter is one of the properties that the fragment stands for. -/
theorem of_project (h : project components location f = .ok ps) (hp : p ∈ ps) :
    ∃ e ∈ propertiesOf (shape components f), ∃ required,
      ofProperty components required location e.1 e.2 = .ok p := by
  dsimp only [project] at h
  split at h
  · cases h
  · obtain ⟨e, he, hproperty⟩ := exists_of_forall₂_of_mem (Except.mapM_eq_ok.1 h).flip hp
    exact ⟨e, he, _, hproperty⟩

/-- **What is hidden from the test of a parameter**: a type that is `Refused` and is read all the
same stands beside another type (`Overruled`), and without properties. -/
theorem of_reads_refused (hf : Throughout Formed f) (hcomponents : ThroughoutAll Formed components)
    (h : ofProperty components required location name f = .ok p)
    (hread : Reads ["allOf"] components f g) (hg : Refused location g) :
    propertiesOf g = [] ∧ Overruled location components f := by
  obtain ⟨-, hproperties, hrefused⟩ := of_ofProperty h
  have halone : Alone g := (hread.throughout (by simp) hcomponents hf).here.alone
  have hnone : propertiesOf g = [] := by
    by_contra hne
    exact properties_shape_ne_nil hf hcomponents hread halone hne hproperties
  obtain ⟨v, hv⟩ := hg.exists_type
  rcases exists_type_shape hf hcomponents hread halone hv with hne | ⟨j, w, hj, hjw, hw⟩
  · exact absurd hproperties hne
  · refine ⟨hnone, j, hj, by rw [hjw]; rfl, fun hjrefused => hrefused ?_⟩
    exact hjrefused.of_type (hjw.trans hw.symm)

/-- **Where intersections end in records, nothing is hidden** from the test of a parameter: what
`ofProperty` accepts reads of no type that is `Refused`. -/
theorem not_refused_of_reads (hf : Throughout Formed f) (hsettled : Throughout Settled f)
    (hcomponents : ThroughoutAll Formed components) (hends : ThroughoutAll Settled components)
    (h : ofProperty components required location name f = .ok p)
    (hread : Reads ["allOf"] components f g) : ¬Refused location g := by
  intro hg
  obtain ⟨-, -, hrefused⟩ := of_ofProperty h
  have halone : Alone g :=
    (hread.throughout (by simp) hcomponents hf).here.alone
  obtain ⟨v, hv⟩ := hg.exists_type
  rcases type_shape hf hsettled hcomponents hends hread halone hv with hw | hw
  · exact hrefused (Or.inl hw)
  · exact hrefused (hg.of_type (hv.trans hw.symm))

/-- Whatever is read is read without unions, or lies behind one. -/
theorem Reads.behindUnion (h : Reads ["allOf", "oneOf"] components f g) :
    Reads ["allOf"] components f g ∨ BehindUnion components f g := by
  induction h with
  | here f => exact Or.inl (.here f)
  | reference hname htarget _ ih =>
    refine ih.imp (.reference hname htarget) ?_
    rintro ⟨union, members, m, hunion, hrest⟩
    exact ⟨union, members, m, .reference hname htarget hunion, hrest⟩
  | @member f next g key members hkey hmembers hmember hrest ih =>
    simp only [List.mem_cons, List.not_mem_nil, or_false] at hkey
    rcases hkey with rfl | rfl
    · refine ih.imp (.member (.head _) hmembers hmember) ?_
      rintro ⟨union, others, m, hunion, hrest⟩
      exact ⟨union, others, m, .member (.head _) hmembers hmember hunion, hrest⟩
    · exact Or.inr ⟨f, members, next, .here f, hmembers, hmember, hrest⟩

end Parameter

end JsonShape
