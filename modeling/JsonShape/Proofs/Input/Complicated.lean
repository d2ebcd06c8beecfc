import JsonShape.Proofs.Input.Fields
import JsonShape.Proofs.Input.Reached
import JsonShape.Proofs.Schema.Refused
import JsonShape.Regex.Pattern

/-!
# Parameters that are too complicated

A property that is an object, or an array in a path, is no parameter. Whether it is one is told from
the fragment that it stands for, after references and intersections: that test finds every object
and every array that is read this way. It does not look into unions, and so a union of objects is a
parameter.

* `throughout_docAt`: what documentation keeps, it has throughout.
* `refused_behind_union`: what is refused and is read of an accepted parameter lies behind a union.
* `parameters_union`: a union of objects that is accepted.
-/

namespace JsonShape

namespace Input

open Fragment Parameter

variable [Regex.Engine] {defs : Dict Input} {root i : Input} {P : Json → Prop}
  {deferred : String → Doc Input}

/-! ## The form of documentation -/

theorem throughout_docWith (hP : Kept P)
    (hmerge : ∀ a b, Within defs root (.merge a b) →
      ∀ f, P (Fragment.allOf [f, (docWith deferred b).fragment]))
    (hdeferred : ∀ name, Within defs root (.defer name) → Throughout P (deferred name).fragment)
    (hi : Within defs root i) : Throughout P (docWith deferred i).fragment := by
  induction i with
  | text format =>
    cases format with
    | none => exact hP.throughout_type "string"
    | some format => exact hP.throughout_format format
  | number | integer | boolean => exact hP.throughout_type _
  | null => exact hP.throughout_null
  | any => exact hP.throughout_plain List.nodup_nil fun _ _ => rfl
  | object members ih =>
    rw [docWith_object]
    refine hP.throughout_record fun d hd => ?_
    obtain ⟨m, hm, rfl⟩ := List.mem_map.1 (Member.mem_of_mem_distinct hd)
    exact ih m hm (hi.child (List.mem_map_of_mem hm))
  | merge a b iha ihb =>
    exact throughout_allOf (hmerge a b hi _) (List.forall_mem_cons.2
      ⟨iha (hi.child (.head _)), List.forall_mem_singleton.2 (ihb (hi.child (.tail _ (.head _))))⟩)
  | either a b iha ihb =>
    exact throughout_oneOf hP.union (List.forall_mem_cons.2
      ⟨iha (hi.child (.head _)), List.forall_mem_singleton.2 (ihb (hi.child (.tail _ (.head _))))⟩)
  | list a ih => exact throughout_array (hP.array _) (ih (hi.child (.head _)))
  | optional a ih | enum a _ ih | pattern a _ ih | multipleOf a _ ih | described a _ ih =>
    exact hP.remarkOne (ih (hi.child (.head _))) (by simp [schemaKeys, refKey]) (by decide)
  | inRange a interval ih =>
    exact hP.remark (ih (hi.child (.head _))) (remarks_keywords interval)
      (type_notMem_keywords interval)
  | mapped a _ ih => exact ih (hi.child (.head _))
  | referenced a name => exact hP.throughout_reference name
  | defer name => exact hdeferred name hi

/-- What documentation keeps (`Kept P`) holds throughout the documentation of whatever is within
`root`. -/
theorem throughout_docAt (hP : Kept P)
    (hmerge : ∀ a b, Within defs root (.merge a b) →
      ∀ limit f, P (Fragment.allOf [f, (docAt defs limit b).fragment]))
    (hi : Within defs root i) (limit : Nat) : Throughout P (docAt defs limit i).fragment := by
  have hempty : Throughout P (Doc.plain (.object []) : Doc Input).fragment :=
    hP.throughout_plain List.nodup_nil fun _ _ => rfl
  induction limit generalizing i with
  | zero =>
    rw [docAt_eq]
    exact throughout_docWith hP (fun a b hab f => docAt_eq 0 b ▸ hmerge a b hab 0 f)
      (fun _ _ => hempty) hi
  | succ limit ih =>
    rw [docAt_eq]
    refine throughout_docWith hP (fun a b hab f => docAt_eq (limit + 1) b ▸ hmerge a b hab _ f)
      (fun name hname => ?_) hi
    rw [docLookup_succ]
    split
    · next j hj => exact ih (hname.defer hj)
    · exact hempty

/-! ## The components -/

theorem throughout_reached (h : ∀ j, Within defs i j → Throughout P (doc defs j).fragment) :
    ThroughoutAll P (reached defs i) := by
  intro n t ht
  have hclosed := (reached_closed defs i (C := fun n p => Within defs i (.referenced p n))
    (fun n p hp => found_of_closed (fun _ _ => .child) (fun _ _ => .defer) (hp.child (.head _)))
    (found_of_closed (fun _ _ => .child) (fun _ _ => .defer) .root)).1
  obtain ⟨p, hp, rfl, -⟩ := hclosed n t ht
  exact h p (hp.child (.head _))

/-- Whatever `i` and its components refer to is there, in `reached defs i`. -/
theorem refersWithin_reached (defs : Dict Input) (i : Input) :
    RefersWithin (reached defs i).names (doc defs i).fragment ∧
      ∀ n t, (reached defs i).get? n = some t → RefersWithin (reached defs i).names t := by
  obtain ⟨hclosed, hroot⟩ := reached_closed defs i (C := fun _ _ => True)
    (fun _ _ _ _ _ => trivial) (fun _ _ => trivial)
  refine ⟨(covers_docAt defs.length i).mono hroot, fun n t ht => ?_⟩
  obtain ⟨p, -, rfl, hfound⟩ := hclosed n t ht
  exact (covers_docAt defs.length p).mono hfound

/-! ## Accepted parameters -/

/-- **Too complicated parameters are refused, but behind unions.** Let `p` be one of the parameters
`ps` that an input `i` has in a `location`, and let `g` be read of `p.schema` through references,
intersections and unions (`Reads`). Whatever `g` refers to is in `reached defs i`. If `g` has a type
that the location refuses (`Refused`), it lies `BehindUnion`, or else

* it has no properties, and another type is read beside its own, which is the one that counts
  (`Overruled`), and
* a shape `b` other than a record is laid over its parent somewhere within `i`. Records that extend
  one another are laid over each other as records, so this is not so where they are all that is
  merged. -/
theorem refused_behind_union {location : Location} {ps : List Parameter} {p : Parameter} {g : Json}
    (h : parameters defs (doc defs i) location = .ok ps) (hp : p ∈ ps)
    (hread : Reads ["allOf", "oneOf"] (reached defs i) p.schema g) :
    (∀ name, referencedName g = some name → name ∈ (reached defs i).names) ∧
      (Refused location g → BehindUnion (reached defs i) p.schema g ∨
        (Reads ["allOf"] (reached defs i) p.schema g ∧ propertiesOf g = [] ∧
          Overruled location (reached defs i) p.schema ∧
          ∃ a b, Within defs i (.merge a b) ∧ ∀ members, b ≠ .object members)) := by
  have hdocs : ∀ j, Within defs i j → Throughout Formed (doc defs j).fragment := fun j hj =>
    throughout_docAt kept_formed (fun _ _ _ _ _ => formed_singleton (by decide)) hj _
  have hcomponents := throughout_reached hdocs
  rw [parameters_eq] at h
  obtain ⟨e, he, required, hproperty⟩ := of_project h hp
  obtain ⟨u, hu, hmem⟩ := exists_reads_of_mem_properties (hdocs i .root) hcomponents he
  rw [(of_ofProperty hproperty).1] at hread ⊢
  have hschema : ∀ {P : Json → Prop}, Throughout P (doc defs i).fragment →
      ThroughoutAll P (reached defs i) → Throughout P e.2 :=
    fun hroot hthere => (hu.throughout (by simp) hthere hroot).of_mem_properties hmem
  have hform : Throughout Formed e.2 := hschema (hdocs i .root) hcomponents
  refine ⟨fun name hname => ?_, fun hg => ?_⟩
  · obtain ⟨hroot, hthere⟩ := refersWithin_reached defs i
    have hwithin : ThroughoutAll (RefersWithin (reached defs i).names) (reached defs i) :=
      fun n t ht => (hcomponents n t ht).refersWithin (hthere n t ht)
    have hrefers : RefersWithin (reached defs i).names g :=
      (hread.throughout (by simp) hwithin
        (hschema ((hdocs i .root).refersWithin hroot) hwithin)).here
    obtain ⟨target, htarget, -⟩ := Option.bind_eq_some_iff.1 hname
    obtain ⟨n, hn, rfl⟩ := hrefers target (.here htarget)
    obtain rfl := Option.some.inj ((referencedName_of_target htarget).symm.trans hname)
    exact hn
  · rcases hread.behindUnion with hflat | hunion
    · obtain ⟨hnone, hother⟩ := of_reads_refused hform hcomponents hproperty hflat hg
      refine Or.inr ⟨hflat, hnone, hother, ?_⟩
      by_contra hmerges
      push Not at hmerges
      -- where records are laid over records only, nothing is hidden by another type
      have hsettled : ∀ j, Within defs i j → Throughout Settled (doc defs j).fragment := by
        refine fun j hj => throughout_docAt kept_settled (fun a b hab limit f => ?_) hj _
        obtain ⟨members, rfl⟩ := hmerges a b hab
        rw [docAt_eq, docWith_object, Doc.fragment_record]
        exact settled_allOf f _ _
      have hends := throughout_reached hsettled
      exact not_refused_of_reads hform (hschema (hsettled i .root) hends) hcomponents hends
        hproperty hflat hg
    · exact Or.inl hunion

/-- A filter by a span, which is a record, or by a number. -/
def spanFilter : Input := .object [⟨"filter", .either
  (.referenced (.object [⟨"from", .text none, true, none⟩]) "Span") .integer, true, none⟩]

end Input

namespace Input

open Fragment Parameter

attribute [local instance] Regex.Engine.standard

/-- The span is found behind the union, where its name leads to it. -/
theorem refused_behind_union_span :
    let filter : Parameter := ⟨"filter", .query, .object [("oneOf", .array
      [Fragment.reference "Span", .object [("type", .string "integer")]])], true, false⟩
    parameters [] (doc [] spanFilter) .query = .ok [filter] ∧
      ∃ g, Reads ["allOf", "oneOf"] (reached [] spanFilter) filter.schema g ∧ Refused .query g ∧
        BehindUnion (reached [] spanFilter) filter.schema g := by
  intro filter
  have hparameters : parameters [] (doc [] spanFilter) .query = .ok [filter] := rfl
  let span : Json := Fragment.object [("from", .object [("type", .string "string")])] ["from"]
  have hspan : (reached [] spanFilter).get? "Span" = some span := rfl
  have hread : Reads ["allOf", "oneOf"] (reached [] spanFilter) filter.schema span :=
    .member (.tail _ (.head _)) rfl (.head _)
      (.reference (referencedName_reference "Span") hspan (.here span))
  refine ⟨hparameters, span, hread, Or.inl rfl, ?_⟩
  rcases (refused_behind_union hparameters (.head _) hread).2 (Or.inl rfl) with
    hunion | ⟨-, hnone, -⟩
  · exact hunion
  · cases hnone

/-- **A union of objects is a parameter**, in a query and in a path: what is read of it has the type
of an object. -/
theorem parameters_union :
    let i : Input := .object [⟨"filter", .either (.object [⟨"a", .text none, true, none⟩])
      (.object [⟨"b", .text none, true, none⟩]), true, none⟩]
    ∀ location, ∃ p, parameters [] (doc [] i) location = .ok [p] ∧
      ∃ g, Reads ["allOf", "oneOf"] (reached [] i) p.schema g ∧
        g.get? "type" = some (.string "object") := by
  intro i location
  have hread : ∀ p : Parameter, p.schema = .object [("oneOf", .array
      [Fragment.object [("a", .object [("type", .string "string")])] ["a"],
        Fragment.object [("b", .object [("type", .string "string")])] ["b"]])] →
      ∃ g, Reads ["allOf", "oneOf"] (reached [] i) p.schema g ∧
        g.get? "type" = some (.string "object") := by
    rintro ⟨_, _, _, _, _⟩ rfl
    exact ⟨_, .member (.tail _ (.head _)) rfl (.head _) (.here _), rfl⟩
  cases location <;> exact ⟨_, rfl, hread _ rfl⟩

end Input

end JsonShape
