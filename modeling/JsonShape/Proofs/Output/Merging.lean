import JsonShape.Proofs.Output.Components
import JsonShape.Proofs.Output.Limit
import JsonShape.Proofs.Output.Record
import JsonShape.Proofs.Schema.Flat
import JsonShape.Proofs.Schema.Formed

/-!
# Objects laid over one another

A chain of inheritance lays several objects over one another, and a view lays one more over the
result. It makes no difference which two are taken first (`merge_assoc`), neither to what is written
and reported nor to the documentation, as long as what is in the middle is an object. Another value
there would hide what lies below it in one case, and be hidden itself in the other.

* `Json.merge_merge`: objects laid over one another.
* `throughout_docAt`: what documentation keeps, it has throughout. Among it is that no intersection
  stands directly within another one.
-/

namespace JsonShape

/-- An object in which no member stands twice. -/
def Json.IsObject (v : Json) : Prop := ∃ ms : Dict Json, v = .object ms ∧ ms.names.Nodup

/-- Of three values, it makes no difference which two are laid over one another first, if the one in
the middle is an object. -/
theorem Json.merge_merge {y : Json} (hy : y.IsObject) (x z : Json) :
    (x.merge y).merge z = x.merge (y.merge z) := by
  obtain ⟨ys, rfl, hys⟩ := hy
  cases z with
  | object zs =>
    cases x with
    | object xs => exact congrArg Json.object (Dict.extend_assoc hys xs zs)
    | _ => rfl
  | _ => cases x <;> rfl

namespace Output

variable {defs : Dict Output} {b : Output} {view : Option String} {v : Json}

/-! ## Three objects -/

/-- What `call` writes of a record always is an object. -/
theorem isObject_of_call_object {properties : List (Property Output)} {w : Json}
    (h : call defs (.object properties) view v = some w) : w.IsObject := by
  rw [call, callAt_eq, callWith_object, Option.map_eq_some_iff] at h
  obtain ⟨members, hmembers, rfl⟩ := h
  refine ⟨present members, rfl, (names_present_sublist members).nodup ?_⟩
  rw [(mem_of_mapM_key hmembers).1]
  exact nodup_keys_inForce properties

section Three

variable {unchecked : Caller} {checked : Reporter}

theorem callWith_merge_assoc (h : ∀ y, callWith unchecked b view v = some y → y.IsObject)
    (a c : Output) : callWith unchecked (.merge (.merge a b) c) view v =
      callWith unchecked (.merge a (.merge b c)) view v := by
  simp only [callWith]
  cases callWith unchecked a view v with
  | none => rfl
  | some x =>
    cases hb : callWith unchecked b view v with
    | none => rfl
    | some y =>
      cases callWith unchecked c view v with
      | none => rfl
      | some z => exact congrArg some (Json.merge_merge (h y hb) x z)

/-- Reports of any of the three are put together in the order of the three. -/
theorem reportWith_merge_assoc (h : ∀ y, reportWith checked b view v = some (.ok y) → y.IsObject)
    (a c : Output) :
    (reportWith checked (.merge (.merge a b) c) view v).map (Except.mapError Report.pathHash) =
      (reportWith checked (.merge a (.merge b c)) view v).map
        (Except.mapError Report.pathHash) := by
  simp only [reportWith]
  rcases reportWith checked a view v with _ | x
  · rfl
  · rcases hb : reportWith checked b view v with _ | y
    · rfl
    · rcases reportWith checked c view v with _ | z
      · rfl
      · rcases x with x | x <;> rcases y with y | y <;> rcases z with z | z
        case ok.ok.ok => exact congrArg (some ∘ Except.ok) (Json.merge_merge (h y hb) x z)
        all_goals rfl

end Three

/-! ## Documentation -/

section Documentation

open Fragment

variable {P : Json → Prop} {deferred : Documenter}

/-- What documentation keeps, intersections included, it has throughout. -/
theorem throughout_docWith (hP : Kept P) (hmerge : ∀ f g, P f → P g → P (Fragment.allOf [f, g]))
    (hdeferred : ∀ name base, Throughout P (deferred name base).fragment) (o : Output) :
    Throughout P (docWith deferred o).fragment := by
  have hunion : ∀ os : List Output, (∀ q ∈ os, Throughout P (docWith deferred q).fragment) →
      Throughout P (Doc.combine (os.map (docWith deferred)) Fragment.oneOf).fragment := by
    intro os hos
    refine throughout_oneOf hP.union fun f hf => ?_
    rw [List.map_map] at hf
    obtain ⟨q, hq, rfl⟩ := List.mem_map.1 hf
    exact hos q hq
  induction o with
  | text format =>
    cases format with
    | none => exact hP.throughout_type "string"
    | some format => exact hP.throughout_format format
  | number | integer | boolean => exact hP.throughout_type _
  | null => exact hP.throughout_null
  | object properties ih =>
    rw [docWith_object]
    refine hP.throughout_record fun d hd => ?_
    obtain ⟨p, hp, rfl⟩ := List.mem_map.1 (Member.mem_of_mem_distinct hd)
    exact ih p hp
  | merge a b iha ihb =>
    exact throughout_allOf (hmerge _ _ iha.here ihb.here)
      (List.forall_mem_cons.2 ⟨iha, List.forall_mem_singleton.2 ihb⟩)
  | cond _ a b iha ihb =>
    exact hunion [a, b] (List.forall_mem_cons.2 ⟨iha, List.forall_mem_singleton.2 ihb⟩)
  | list a ih => exact throughout_array (hP.array _) ih
  | optional a ih | described a _ ih =>
    exact hP.remarkOne ih (by simp [schemaKeys, refKey]) (by decide)
  | viaMap a _ ih => exact ih
  | referenced a name => exact hP.throughout_reference name
  | viewed earlier base later ihe ihb ihl =>
    rw [docWith_viewed]
    exact hunion _ (forall_mem_children_viewed.2 ⟨ihe, ihb, ihl⟩)
  | chain base views ihb ihv =>
    rw [docWith_chain]
    exact hunion _ (forall_mem_children_chain.2 ⟨ihb, ihv⟩)
  | defer name base => exact hdeferred name base

theorem throughout_docAt (hP : Kept P) (hmerge : ∀ f g, P f → P g → P (Fragment.allOf [f, g]))
    (limit : Nat) (o : Output) : Throughout P (docAt defs limit o).fragment :=
  docAt_of_docWith (Q := fun d => Throughout P d.fragment)
    (hP.throughout_plain List.nodup_nil fun _ _ => rfl)
    (fun _ => throughout_docWith hP hmerge) limit o

theorem kept_flat : Kept (Flat "allOf") where
  plain _ _ h := flat_of_get? (h "allOf" (by simp [schemaKeys]))
  reference _ := flat_of_get? rfl
  record _ _ := flat_of_get? (get?_object (by decide))
  array _ := flat_of_get? rfl
  union _ := flat_of_get? rfl
  remarked _ _ h hextra _ := flat_merge h (hextra "allOf" (by simp [schemaKeys]))

theorem flat_docAt (limit : Nat) (o : Output) : Flat "allOf" (docAt defs limit o).fragment :=
  (throughout_docAt kept_flat (fun _ _ hf hg => flat_allOf (by simpa using ⟨hf, hg⟩)) limit o).here

/-- What the fragment of `o` adds to an intersection: its members if it is one, or itself. -/
def intersected (defs : Dict Output) (limit : Nat) (o : Output) : List Json :=
  splice "allOf" (docAt defs limit o).fragment

/-- No member that `o` adds to an intersection is an intersection of its own (`Bare`). -/
theorem not_bare_of_mem_intersected {limit : Nat} {o : Output} {f : Json}
    (h : f ∈ intersected defs limit o) : ¬Bare "allOf" f :=
  flat_docAt limit o f h

/-- What the parts add is put together in their order. -/
theorem fragment_docAt_merge (limit : Nat) (a b : Output) :
    (docAt defs limit (.merge a b)).fragment =
      .object [("allOf", .array (intersected defs limit a ++ intersected defs limit b))] := by
  rw [intersected, intersected, docAt_eq, docAt_eq, docAt_eq, docWith]
  simp [Doc.allOf, Doc.combine, Fragment.allOf]

theorem intersected_merge (limit : Nat) (a b : Output) :
    intersected defs limit (.merge a b) = intersected defs limit a ++ intersected defs limit b := by
  rw [intersected, fragment_docAt_merge, splice_bare]

end Documentation

/-- **Objects laid over one another are associative**, where `b`, the one in the middle, is written
as an object. Which two of `a`, `b` and `c` are taken first makes no difference to what `callAt`
writes and to what `reportAt` answers, as `Report.pathHash` has it, nor to `docAt`: one `allOf` of
what the three add to it, in their order, in which no `allOf` stands again. This is so however often
definitions may be looked up, and so of `call`, `report` and `doc`, which have limits of their
own. -/
theorem merge_assoc (defs : Dict Output) (limit : Nat) (a b c : Output) :
    (∀ view v, (∀ w, callAt defs limit b view v = some w → w.IsObject) →
      callAt defs limit (.merge (.merge a b) c) view v =
        callAt defs limit (.merge a (.merge b c)) view v ∧
      (reportAt defs limit (.merge (.merge a b) c) view v).map (Except.mapError Report.pathHash) =
        (reportAt defs limit (.merge a (.merge b c)) view v).map
          (Except.mapError Report.pathHash)) ∧
    docAt defs limit (.merge (.merge a b) c) = docAt defs limit (.merge a (.merge b c)) ∧
    (docAt defs limit (.merge (.merge a b) c)).fragment = .object [("allOf", .array
      (intersected defs limit a ++ intersected defs limit b ++ intersected defs limit c))] ∧
    ∀ f ∈ intersected defs limit a ++ intersected defs limit b ++ intersected defs limit c,
      ¬Fragment.Bare "allOf" f := by
  refine ⟨fun view v h => ⟨?_, ?_⟩, ?_, ?_, fun f hf => ?_⟩
  · rw [callAt_eq, callAt_eq]
    refine callWith_merge_assoc (fun y hy => h y ?_) a c
    rwa [callAt_eq]
  · rw [reportAt_eq, reportAt_eq]
    refine reportWith_merge_assoc (fun y hy => h y ?_) a c
    rw [← reportAt_eq] at hy
    exact agrees_at defs limit b view v y hy
  · rw [docAt_eq, docAt_eq]
    exact Doc.allOf_assoc _ _ _
  · rw [fragment_docAt_merge, intersected_merge]
  · rw [List.mem_append, List.mem_append] at hf
    rcases hf with (hf | hf) | hf <;> exact not_bare_of_mem_intersected hf

/-- Three records that declare one another's members again. -/
theorem merge_assoc_records :
    let record (keys : List String) : Output :=
      .object (keys.map fun k => ⟨k, some (·.getOrNull k), .text none, true, none⟩)
    let a := record ["id"]
    let b := record ["name", "id"]
    let c := record ["note", "name"]
    let v : Json := .object [("note", .string "blue"), ("name", .string "pen"), ("id", .string "7")]
    let written : Json :=
      .object [("id", .string "7"), ("name", .string "pen"), ("note", .string "blue")]
    (∀ w, call [] b none v = some w → w.IsObject) ∧
      call [] (.merge (.merge a b) c) none v = some written ∧
      report [] (.merge a (.merge b c)) none v = some (.ok written) := by
  intro record a b c v written
  have hobject : ∀ w, call [] b none v = some w → w.IsObject := fun w hw =>
    isObject_of_call_object hw
  obtain ⟨hcall, -⟩ := (merge_assoc [] deepest a b c).1 none v hobject
  exact ⟨hobject, hcall.trans rfl, rfl⟩

end Output

end JsonShape
