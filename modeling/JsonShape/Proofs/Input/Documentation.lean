import JsonShape.Proofs.Input.Projection
import JsonShape.Proofs.Json.Canonical
import JsonShape.Proofs.Schema.Fragment
import JsonShape.Regex.Pattern

/-!
# Accepted values satisfy the documentation

What an input accepts satisfies the fragment that documents it, read against the components that
are collected for it (`Input.satisfies_doc`).

The inputs in question are *plain*: no function changes a value, no rule on numbers narrows one, and
enumerations list scalars. Within an input, a component name has to stand for one definition.

* `isMember_of_projects`: what is not an array or an object is not changed, so that a test of the
  accepted value is a test of the given one.
* `satisfies_docWith`: soundness within an input, by induction on the shape.
* `satisfies_docAt`: the same through lookups. The documentation of a component starts with lookups
  anew, so the statement is about every limit for documentation and one for checking.
-/

namespace JsonShape

/-- Only a container `a` is the same member as a container `w`. -/
theorem Json.isContainer_of_sameMember {a w : Json} (h : a.sameMember w) (hw : w.isContainer) :
    a.isContainer := by
  cases a with
  | array _ | object _ => rfl
  | _ =>
    cases w with
    | array _ | object _ => simp [sameMember, same_iff] at h
    | _ => simp [isContainer] at hw

/-- What the documentation of `members` admits: objects with the required members, in which the
members that are there satisfy their documentation. -/
theorem Doc.satisfies_record [Regex.Engine] {α : Type} {components : Dict Json}
    {members : List (Member (Doc α))} {v : Json} :
    Satisfies components (record members).fragment v ↔
      ∃ ms, v = .object ms ∧ ∀ m ∈ Member.distinct members, (m.required → Dict.contains ms m.key) ∧
        ∀ x, Dict.get? ms m.key = some x → Satisfies components m.value.fragment x := by
  let declared := Member.distinct members
  let properties : Dict Json := declared.map fun m => (m.key, (ofMember m).fragment)
  have hrecord : (record members).fragment =
      Fragment.object properties ((declared.filter Member.required).map Member.key) :=
    fragment_record members
  have hmember : ∀ (m : Member (Doc α)) x, Satisfies components (ofMember m).fragment x ↔
      Satisfies components m.value.fragment x := by
    intro m x
    unfold ofMember
    split
    · exact Fragment.satisfies_described
    · exact Iff.rfl
  have hnames : properties.names = Member.keys declared := List.map_map
  have hnodup : properties.names.Nodup := hnames ▸ Member.nodup_keys_distinct members
  rw [hrecord, Fragment.satisfies_object_fragment]
  refine exists_congr fun ms => and_congr_right fun _ => ?_
  simp only [List.mem_map, List.mem_filter, forall_exists_index, and_imp, forall_and]
  refine and_congr ⟨fun h m hm hr => h _ m hm hr rfl, fun h _ m hm hr hk => hk ▸ h m hm hr⟩ ?_
  simp only [Dict.get?_eq_some_iff hnodup, properties, List.mem_map, Prod.mk.injEq]
  constructor
  · exact fun h m hm x hx => (hmember m x).1 (h _ _ x ⟨m, hm, rfl, rfl⟩ hx)
  · rintro h _ _ x ⟨m, hm, rfl, rfl⟩ hx
    exact (hmember m x).2 (h m hm x hx)

namespace Input

variable [Regex.Engine]

/-- Whether a node does not change or narrow numbers, as `mapped`, `inRange` and `multipleOf` do,
and enumerates scalars only. -/
def isPlain : Input → Bool
  | .inRange _ _ | .multipleOf _ _ | .mapped _ _ => false
  | .enum _ values => values.all fun v => !v.isContainer
  | _ => true

/-- `root` is plain throughout (`isPlain`), with one definition for each name of a component. -/
structure WellNamed (defs : Dict Input) (root : Input) : Prop where
  plain : ∀ i, Within defs root i → i.isPlain
  one : ∀ a b name, Within defs root (.referenced a name) → Within defs root (.referenced b name) →
    a = b

variable {defs : Dict Input} {root i : Input} {v w : Json} {deferred : String → Json → Outcome}

/-! ## Tests of the given value -/

omit [Regex.Engine] in
/-- An enumeration of scalars tests the value `v` that is given, as it does its projection `w`. -/
theorem isMember_of_projects {values : List Json} (h : v.Projects w)
    (hscalar : values.all fun a => !a.isContainer) (hw : isMember values w) :
    isMember values v := by
  cases hv : v.isContainer with
  | false => exact h.eq_of_scalar hv ▸ hw
  | true =>
    obtain ⟨a, ha, hsame⟩ := List.any_eq_true.1 hw
    have hnot := List.all_eq_true.1 hscalar a ha
    simp [Json.isContainer_of_sameMember hsame (h.isContainer_eq.trans hv)] at hnot

theorem isUnmapped_of_isPlain (h : i.isPlain) : i.isUnmapped := by
  cases i with
  | mapped _ _ => exact h
  | _ => rfl

/-! ## Soundness -/

/-- What the documentation `d` mentions is among `components`. -/
def Listed (components : Dict Json) (d : Doc Input) : Prop :=
  ∀ n ∈ d.found.names, n ∈ components.names

/-- A component that is listed is documented by what `root` refers to under its name. -/
def Documents (defs : Dict Input) (root : Input) (components : Dict Json) : Prop :=
  ∀ p name, Within defs root (.referenced p name) → name ∈ components.names →
    components.get? name = some (doc defs p).fragment ∧ Listed components (doc defs p)

variable {components : Dict Json}

theorem Listed.of_combine {docs : List (Doc Input)} {f : List Json → Json} {d : Doc Input}
    (h : Listed components (.combine docs f)) (hd : d ∈ docs) : Listed components d :=
  fun n hn => h n (Doc.mem_names_combine.2 ⟨d, hd, hn⟩)

theorem Listed.of_record {members : List (Member (Doc Input))} {m : Member (Doc Input)}
    (h : Listed components (.record members)) (hm : m ∈ Member.distinct members) :
    Listed components m.value :=
  fun n hn => h n (Doc.mem_names_record.2 ⟨m, hm, hn⟩)

/-- Where each name stands for one definition, the components that `Input.components` collects are
documented by it. -/
theorem WellNamed.documents (h : WellNamed defs root) :
    Documents defs root (Input.components defs [doc defs root]) := by
  intro p name hp hname
  obtain ⟨f, hf⟩ := Option.isSome_iff_exists.1 (Dict.contains_iff.2 hname)
  obtain ⟨q, hq, rfl, hfound⟩ := (components_closed defs root).1 name f hf
  obtain rfl := h.one p q name hp hq
  exact ⟨hf, hfound⟩

/-- **What a shape `i` within `root` accepts satisfies its documentation**, if that is so of
deferred definitions, by induction on the shape. -/
theorem satisfies_docWith (h : WellNamed defs root) (hdoc : Documents defs root components)
    {limit : Nat}
    (hdeferred : ∀ name, Within defs root (.defer name) → ∀ docLimit v,
      Listed components (docLookup defs docLimit name) →
      Accepts (lookup defs limit) (.defer name) v →
      Satisfies components (docLookup defs docLimit name).fragment v)
    (hi : Within defs root i) {docLimit : Nat}
    (hlisted : Listed components (docWith (docLookup defs docLimit) i))
    (hv : Accepts (lookup defs limit) i v) :
    Satisfies components (docWith (docLookup defs docLimit) i).fragment v := by
  have hprojects : ∀ {j v w}, Within defs root j → callWith (lookup defs limit) j v = some (.ok w) →
      v.Projects w := fun hj hw =>
    projects_of_callAt (fun k hk => isUnmapped_of_isPlain (h.plain k hk)) hj
      ((callAt_eq limit _ _).trans hw)
  induction i generalizing v docLimit with
  | text format =>
    have hstring : v.hasType "string" := accepts_text.1 hv
    cases format with
    | none => exact satisfies_type.2 hstring
    | some format => exact satisfies_format.2 hstring
  | number => exact satisfies_type.2 (accepts_number.1 hv)
  | integer => exact satisfies_type.2 (accepts_integer.1 hv)
  | boolean => exact satisfies_type.2 (accepts_boolean.1 hv)
  | null =>
    obtain rfl := Json.isNull_iff.1 (accepts_null.1 hv)
    exact .null rfl
  | any => exact satisfies_empty
  | object members ih =>
    rw [docWith_object] at hlisted ⊢
    obtain ⟨ms, rfl, hms⟩ := accepts_object.1 hv
    refine Doc.satisfies_record.2 ⟨ms, rfl, fun d hd => ?_⟩
    have hlistedm := hlisted.of_record hd
    rw [distinct_withDoc] at hd
    obtain ⟨m, hm, rfl⟩ := List.mem_map.1 hd
    have hmem := Member.mem_of_mem_distinct hm
    refine ⟨(hms m hm).1, fun x hx => ?_⟩
    exact ih m hmem (hi.child (List.mem_map_of_mem hmem)) hlistedm ((hms m hm).2 x hx)
  | merge a b iha ihb =>
    obtain ⟨ha, hb⟩ := accepts_merge.1 hv
    refine Fragment.satisfies_allOf.2 (List.forall_mem_cons.2 ⟨?_, List.forall_mem_singleton.2 ?_⟩)
    · exact iha (hi.child (.head _)) (hlisted.of_combine (.head _)) ha
    · exact ihb (hi.child (.tail _ (.head _))) (hlisted.of_combine (.tail _ (.head _))) hb
  | list item ih =>
    obtain ⟨xs, rfl, hxs⟩ := accepts_list.1 hv
    refine Fragment.satisfies_array.2 ⟨xs, rfl, fun x hx => ?_⟩
    exact ih (hi.child (.head _)) hlisted (hxs x hx)
  | either a b iha ihb =>
    refine Fragment.satisfies_oneOf.2 ?_
    rcases accepts_or_of_accepts_either hv with ha | hb
    · exact ⟨_, .head _, iha (hi.child (.head _)) (hlisted.of_combine (.head _)) ha⟩
    · exact ⟨_, .tail _ (.head _), ihb (hi.child (.tail _ (.head _)))
        (hlisted.of_combine (.tail _ (.head _))) hb⟩
  | optional a ih =>
    refine Fragment.satisfies_nullable.2 ((accepts_optional.1 hv).imp_right fun hv => ?_)
    exact ih (hi.child (.head _)) hlisted hv
  | enum a values ih =>
    obtain ⟨w, hw⟩ := hv
    obtain ⟨hw, hmem⟩ := callWith_enum_eq_ok.1 hw
    have ha := hi.child (.head _)
    refine Fragment.satisfies_mergeOne (by simp) (ih ha hlisted ⟨w, hw⟩) (.enum ?_)
    exact isMember_of_projects (hprojects ha hw) (h.plain _ hi) hmem
  | pattern a regex ih =>
    obtain ⟨w, hw⟩ := hv
    obtain ⟨hw, hfits⟩ := callWith_pattern_eq_ok.1 hw
    have ha := hi.child (.head _)
    refine Fragment.satisfies_mergeOne (by simp) (ih ha hlisted ⟨w, hw⟩) (.pattern ?_)
    rwa [← (hprojects ha hw).test_eq fun u hu => fits_of_isContainer hu]
  | inRange _ _ | multipleOf _ _ | mapped _ _ => exact absurd (h.plain _ hi) Bool.false_ne_true
  | described a text ih =>
    exact Fragment.satisfies_described.2 (ih (hi.child (.head _)) hlisted hv)
  | referenced a name ih =>
    obtain ⟨hget, hlisted⟩ := hdoc a name hi (hlisted name (.head _))
    refine Fragment.satisfies_reference.2 ⟨_, hget, ?_⟩
    rw [doc, docAt_eq] at hlisted ⊢
    exact ih (hi.child (.head _)) hlisted hv
  | defer name => exact hdeferred name hi docLimit v hlisted hv

/-- **What a shape `i` within `root` accepts satisfies its documentation**, whatever the limits on
lookups are for checking (`limit`) and for documentation (`docLimit`), by induction on the one for
checking. -/
theorem satisfies_docAt (h : WellNamed defs root) (hdoc : Documents defs root components)
    {limit docLimit : Nat} (hi : Within defs root i)
    (hlisted : Listed components (docAt defs docLimit i)) (hv : Accepts (lookup defs limit) i v) :
    Satisfies components (docAt defs docLimit i).fragment v := by
  induction limit generalizing i v docLimit with
  | zero =>
    rw [docAt_eq] at hlisted ⊢
    refine satisfies_docWith h hdoc (fun name _ docLimit v _ hv => ?_) hi hlisted hv
    obtain ⟨w, hw⟩ := hv
    exact absurd hw nofun
  | succ limit ih =>
    rw [docAt_eq] at hlisted ⊢
    refine satisfies_docWith h hdoc (fun name hname docLimit v hlisted hv => ?_) hi hlisted hv
    obtain ⟨w, hw⟩ := hv
    obtain ⟨j, hj, hw⟩ := Option.bind_eq_some_iff.1 ((lookup_succ limit name v).symm.trans hw)
    cases docLimit with
    | zero => exact satisfies_empty
    | succ docLimit =>
      rw [docLookup_succ, hj] at hlisted ⊢
      exact ih (hname.defer hj) hlisted ⟨w, (callAt_eq limit j v).symm.trans hw⟩

/-- **What an input accepts satisfies its documentation**: if `root` accepts `v`, then `v` itself
satisfies the fragment of `doc defs root`, read against the components that this documentation
mentions. For this `root` has to be `WellNamed`. -/
theorem satisfies_doc (defs : Dict Input) (root : Input) (h : WellNamed defs root) (v w : Json)
    (hv : call defs root v = some (.ok w)) :
    Satisfies (Input.components defs [doc defs root]) (doc defs root).fragment v :=
  satisfies_docAt h h.documents .root (components_closed defs root).2
    ⟨w, (callAt_eq _ root v).symm.trans hv⟩

end Input

namespace Input

attribute [local instance] Regex.Engine.standard

/-- Trees that refer to themselves, with a label from a list. -/
theorem satisfies_doc_tree :
    let label : Input := .enum (.text none) [.string "leaf", .string "node"]
    let branches : Input := .optional (.list (.defer "tree"))
    let record : Input := .object [⟨"label", label, true, none⟩,
      ⟨"branches", branches, false, some "Further trees."⟩]
    let defs : Dict Input := [("tree", .referenced record "Tree")]
    let leaf : Json := .object [("label", .string "leaf"), ("branches", .null)]
    let node : Json := .object [("label", .string "node"), ("branches", .array [leaf])]
    call defs (.defer "tree") node = some (.ok node) ∧
      Satisfies (Input.components defs [doc defs (.defer "tree")])
        (doc defs (.defer "tree")).fragment node := by
  intro label branches record defs leaf node
  let inside : List Input := [.defer "tree", .referenced record "Tree", record, label, .text none,
    branches, .list (.defer "tree")]
  have hparts : ∀ i ∈ inside, ∀ j ∈ i.children, j ∈ inside := by
    simp [inside, label, branches, record, children]
  have hwithin : ∀ i, Within defs (.defer "tree") i → i ∈ inside := by
    intro i hi
    induction hi with
    | root => exact .head _
    | child _ hj ih => exact hparts _ ih _ hj
    | defer _ hi _ =>
      obtain ⟨-, rfl⟩ := Prod.mk.inj (List.mem_singleton.1 (Dict.mem_of_get? hi))
      exact .tail _ (.head _)
  have hplain : ∀ i ∈ inside, i.isPlain := by
    simp [inside, label, branches, record, isPlain, Json.isContainer]
  have hone : ∀ a name, .referenced a name ∈ inside → a = record := by
    simp [inside, label, branches, record]
  have hnamed : WellNamed defs (.defer "tree") :=
    ⟨fun i hi => hplain i (hwithin i hi), fun a b name ha hb =>
      (hone a name (hwithin _ ha)).trans (hone b name (hwithin _ hb)).symm⟩
  exact ⟨rfl, satisfies_doc defs (.defer "tree") hnamed node node rfl⟩

end Input

end JsonShape
