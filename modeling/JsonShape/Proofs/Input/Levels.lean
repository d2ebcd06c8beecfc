import JsonShape.Proofs.Input.Demands
import JsonShape.Proofs.Input.Fields
import JsonShape.Proofs.Input.Reached
import JsonShape.Proofs.Shape
import JsonShape.Regex.Pattern

/-!
# Parameters of records that extend one another

A record is documented as an intersection of a reference to its parent and its own members, so that
the members of a chain of records are spread over as many components. The parameters of the last
record are read off all of them. Each key makes one parameter, at the place of its first declaration
and with the documentation of its last one (`Input.parameters_ofLevels`).

What a path or a query asks for is what the validator asks for: a declaration that requires a key is
in force however the key is declared again, both in the documentation, where required names are
united, and in the validator, where every record of the chain reports what it lacks.
-/

namespace JsonShape

namespace InputStruct

variable [Regex.Engine] {name : String} {own : List (Member Input)} {s : InputStruct}
  {ancestors : List (String × List (Member Input))}

/-! ## Chains of records -/

/-- The declarations of a chain of records, those of its root first and `own` last. -/
def declared (own : List (Member Input)) :
    List (String × List (Member Input)) → List (Member Input)
  | [] => own
  | parent :: rest => declared parent.2 rest ++ own

/-- What the last record of a chain accepts: its `own` members, over what its parent accepts. -/
def inheritedOf (own : List (Member Input)) : List (String × List (Member Input)) → Input
  | [] => .object own
  | parent :: rest => .merge (.referenced (inheritedOf parent.2 rest) parent.1) (.object own)

/-- The records of a chain with their names, the last one, `name`, first. -/
def chain (name : String) (own : List (Member Input)) :
    List (String × List (Member Input)) → Dict Input
  | [] => [(name, .object own)]
  | parent :: rest => (name, inheritedOf own (parent :: rest)) :: chain parent.1 parent.2 rest

theorem chain_eq_cons (name : String) (own : List (Member Input))
    (ancestors : List (String × List (Member Input))) :
    ∃ rest, chain name own ancestors = (name, inheritedOf own ancestors) :: rest := by
  cases ancestors with
  | nil => exact ⟨_, rfl⟩
  | cons parent rest => exact ⟨_, rfl⟩

theorem names_chain (name : String) (own : List (Member Input))
    (ancestors : List (String × List (Member Input))) :
    (chain name own ancestors).names = name :: ancestors.map Prod.fst := by
  induction ancestors generalizing name own with
  | nil => rfl
  | cons parent rest ih => exact congrArg (name :: ·) (ih parent.1 parent.2)

/-- No record of the chain declares a key twice, be it the last one, with the members `own`, or one
of `ancestors`. -/
def OnceEach (own : List (Member Input)) (ancestors : List (String × List (Member Input))) : Prop :=
  (Member.keys own).Nodup ∧ ∀ l ∈ ancestors, (Member.keys l.2).Nodup

theorem of_build {parent : Option InputStruct} : build name parent own = .ok s →
    (Member.keys own).Nodup ∧ s.input = .referenced (match parent with
      | some parent => .merge parent.input (.object own)
      | none => .object own) name := by
  intro h
  have hnodup := exists_build_iff.1 ⟨s, h⟩
  obtain ⟨i, hi, hinput⟩ := build_of_nodup name parent hnodup
  obtain rfl := Except.ok.inj (hi.symm.trans h)
  exact ⟨hnodup, hinput⟩

/-- A chain of records is built into its last record `s` only if no record declares a key twice, and
`s` accepts what `inheritedOf` says. -/
theorem of_ofLevels (h : ofLevels name own ancestors = .ok s) :
    OnceEach own ancestors ∧ s.input = .referenced (inheritedOf own ancestors) name := by
  induction ancestors generalizing name own s with
  | nil =>
    obtain ⟨hnodup, hinput⟩ := of_build h
    exact ⟨⟨hnodup, List.forall_mem_nil _⟩, hinput⟩
  | cons parent rest ih =>
    obtain ⟨p, hp, h⟩ := Except.bind_eq_ok.1 h
    obtain ⟨honce, hparent⟩ := ih hp
    obtain ⟨hnodup, hinput⟩ := of_build h
    refine ⟨⟨hnodup, List.forall_mem_cons.2 honce⟩, ?_⟩
    rw [hinput, inheritedOf, ← hparent]

/-! ## What is missing -/

theorem lacks_inheritedOf (deferred : String → Json → Outcome) (h : OnceEach own ancestors) :
    ∃ c : Checked, Input.callWith deferred (inheritedOf own ancestors) (.object []) = some c ∧
      c.Lacks (Member.keys ((declared own ancestors).filter Member.required)) := by
  obtain ⟨c, hc, hown⟩ := Input.lacks_object deferred own
  rw [Member.distinct_of_nodup h.1] at hown
  induction ancestors generalizing own c with
  | nil => exact ⟨c, hc, hown⟩
  | cons parent rest ih =>
    have honce := List.forall_mem_cons.1 h.2
    obtain ⟨d, hd, hdlacks⟩ := Input.lacks_object deferred parent.2
    rw [Member.distinct_of_nodup honce.1] at hdlacks
    obtain ⟨p, hp, hparent⟩ := ih honce d hd hdlacks
    refine ⟨p.merge c, ?_, ?_⟩
    · have hreferenced : Input.callWith deferred (.referenced (inheritedOf parent.2 rest) parent.1)
          (.object []) = some p := hp
      rw [inheritedOf, Input.callWith_merge, hreferenced, hc]
      rfl
    · rw [declared, List.filter_append, Member.keys, List.map_append]
      exact hparent.merge hown

/-- **The validator asks for whatever some record of the chain requires.** `Demands` says that the
key `k` is reported as required where an object is empty. -/
theorem demands_iff (defs : Dict Input) (name : String) (h : OnceEach own ancestors) (k : String) :
    Input.Demands defs (.referenced (inheritedOf own ancestors) name) k ↔
      k ∈ Member.keys ((declared own ancestors).filter Member.required) := by
  obtain ⟨c, hc, hlacks⟩ := lacks_inheritedOf
    (fun name u => (defs.get? name).bind fun i => Input.call defs i u) h
  refine Input.demands_iff ?_ hlacks
  rw [Input.call_eq]
  exact hc

/-! ## The components of a chain -/

section components

variable {defs : Dict Input} {components : Dict Json} {parent : String × List (Member Input)}
  {rest : List (String × List (Member Input))}

/-- A chain of records that declare no key twice, with members that are all `Basic`. -/
structure IsBasic (own : List (Member Input)) (ancestors : List (String × List (Member Input))) :
    Prop where
  once : OnceEach own ancestors
  basic : ∀ m ∈ declared own ancestors, m.value.Basic

theorem IsBasic.own_basic (h : IsBasic own ancestors) : ∀ m ∈ own, m.value.Basic := by
  cases ancestors with
  | nil => exact h.basic
  | cons parent rest => exact fun m hm => h.basic m (List.mem_append_right _ hm)

theorem IsBasic.tail (h : IsBasic own (parent :: rest)) : IsBasic parent.2 rest :=
  ⟨List.forall_mem_cons.1 h.once.2, fun m hm => h.basic m (List.mem_append_left _ hm)⟩

/-- The fragment of the members `own` of one record. -/
def ownFragment (defs : Dict Input) (own : List (Member Input)) : Json :=
  Fragment.object (own.map (Input.entry defs)) (Member.keys (own.filter Member.required))

/-- The first record of a chain is documented by its members, in `ownFragment`. -/
theorem doc_root (h : IsBasic own []) :
    Input.doc defs (.object own) = .plain (ownFragment defs own) :=
  Input.doc_object defs h.own_basic h.once.1

/-- Any other record is documented by its own members, beside a reference to its `parent`. -/
theorem doc_inheritedOf (h : IsBasic own (parent :: rest)) :
    Input.doc defs (inheritedOf own (parent :: rest)) =
      ⟨.object [("allOf", .array [Fragment.reference parent.1, ownFragment defs own])],
        [(parent.1, inheritedOf parent.2 rest)]⟩ := by
  have hown := Input.doc_object defs h.own_basic h.once.1
  have hmerge : Input.doc defs (inheritedOf own (parent :: rest)) = .allOf
      (.reference parent.1 (inheritedOf parent.2 rest)) (Input.doc defs (.object own)) := by
    simp only [Input.doc, Input.docAt_eq, Input.docWith, inheritedOf]
  rw [hmerge, hown]
  change (⟨Fragment.allOf [Fragment.reference parent.1, ownFragment defs own], _⟩ : Doc Input) = _
  rw [Fragment.allOf, ownFragment]
  simp only [List.flatMap_cons, Fragment.splice_object]
  rfl

/-- What a record of the `chain` mentions is its parent, which is in the chain too. -/
theorem found_chain (h : IsBasic own ancestors) : ∀ e ∈ chain name own ancestors,
    ∀ e' ∈ (Input.doc defs e.2).found, e' ∈ chain name own ancestors := by
  induction ancestors generalizing name own with
  | nil =>
    refine List.forall_mem_singleton.2 fun e' he' => ?_
    rw [doc_root h] at he'
    cases he'
  | cons parent rest ih =>
    intro e he e' he'
    rcases List.mem_cons.1 he with rfl | he
    · rw [doc_inheritedOf h] at he'
      obtain rfl := List.mem_singleton.1 he'
      obtain ⟨tail, htail⟩ := chain_eq_cons parent.1 parent.2 rest
      rw [chain, htail]
      exact .tail _ (.head _)
    · exact .tail _ (ih h.tail e he e' he')

/-- What holds of `name`, and goes over to what is mentioned, holds of the names of the `chain`. -/
theorem forall_names_chain (h : IsBasic own ancestors) {P : String → Prop} (hname : P name)
    (hfound : ∀ e ∈ chain name own ancestors, P e.1 →
      ∀ n ∈ (Input.doc defs e.2).found.names, P n) :
    ∀ e ∈ chain name own ancestors, P e.1 := by
  induction ancestors generalizing name own with
  | nil => exact List.forall_mem_singleton.2 hname
  | cons parent rest ih =>
    have hparent : P parent.1 := by
      refine hfound _ (.head _) hname _ ?_
      rw [doc_inheritedOf h]
      exact .head _
    exact List.forall_mem_cons.2 ⟨hname, ih h.tail hparent fun e he => hfound e (.tail _ he)⟩

/-- **The records of a chain are the components of the last one**: each entry of
`chain name own ancestors` is in `Input.reached` as it is documented. -/
theorem get?_reached (defs : Dict Input) (h : IsBasic own ancestors)
    (hnames : (name :: ancestors.map Prod.fst).Nodup) : ∀ e ∈ chain name own ancestors,
      (Input.reached defs (.referenced (inheritedOf own ancestors) name)).get? e.1 =
        some (Input.doc defs e.2).fragment := by
  let components := Input.reached defs (.referenced (inheritedOf own ancestors) name)
  have hnodup : (chain name own ancestors).names.Nodup := names_chain name own ancestors ▸ hnames
  have hroot : (Input.doc defs (.referenced (inheritedOf own ancestors) name)).found =
      [(name, inheritedOf own ancestors)] := by
    rw [Input.doc, Input.docAt_eq]
    rfl
  obtain ⟨tail, htail⟩ := chain_eq_cons name own ancestors
  obtain ⟨hclosed, hthere⟩ := Input.reached_closed defs
    (.referenced (inheritedOf own ancestors) name)
    (C := fun n p => (n, p) ∈ chain name own ancestors)
    (fun n p hp e he => found_chain h (n, p) hp e he) (fun e he => by
      rw [hroot] at he
      obtain rfl := List.mem_singleton.1 he
      exact htail ▸ .head _)
  have hget : ∀ e ∈ chain name own ancestors, e.1 ∈ components.names →
      components.get? e.1 = some (Input.doc defs e.2).fragment ∧
        ∀ n ∈ (Input.doc defs e.2).found.names, n ∈ components.names := by
    intro e he hmem
    obtain ⟨f, hf⟩ := Dict.exists_get? hmem
    obtain ⟨p, hp, rfl, hfound⟩ := hclosed e.1 f hf
    have hsame : p = e.2 := Option.some.inj
      (((Dict.get?_eq_some_iff hnodup).2 hp).symm.trans ((Dict.get?_eq_some_iff hnodup).2 he))
    exact hsame ▸ ⟨hf, hfound⟩
  have hall : ∀ e ∈ chain name own ancestors, e.1 ∈ components.names :=
    forall_names_chain h (hthere name (by rw [hroot]; exact .head _))
      fun e he hmem => (hget e he hmem).2
  exact fun e he => (hget e he (hall e he)).1

/-! ## The merged record -/

theorem referencedName_inheritedOf (h : IsBasic own ancestors) :
    Fragment.referencedName (Input.doc defs (inheritedOf own ancestors)).fragment = none := by
  cases ancestors with
  | nil =>
    rw [inheritedOf, doc_root h]
    exact Fragment.referencedName_of_get? (Fragment.get?_object (by decide))
  | cons parent rest =>
    rw [doc_inheritedOf h]
    exact Fragment.referencedName_of_get? rfl

/-- **The merged fragment of a chain of records**: each key has the fragment that was documented
last, at its first place, and is `required` if some record requires it. -/
theorem record_flatten (h : IsBasic own ancestors)
    (hdoc : ∀ e ∈ chain name own ancestors,
      components.get? e.1 = some (Input.doc defs e.2).fragment)
    {steps : Nat} (hsteps : ancestors.length ≤ steps) :
    ∃ required : List Json, Parameter.Record
        (Parameter.flatten components steps (Input.doc defs (inheritedOf own ancestors)).fragment)
        (Dict.ofList ((declared own ancestors).map (Input.entry defs))) required ∧
      ∀ k, .string k ∈ required ↔
        k ∈ Member.keys ((declared own ancestors).filter Member.required) := by
  induction ancestors generalizing name own steps with
  | nil =>
    have hnames : Dict.names (own.map (Input.entry defs)) = Member.keys own := List.map_map
    have hown : Dict.ofList (own.map (Input.entry defs)) = own.map (Input.entry defs) :=
      Dict.extend_of_nodup (hnames ▸ h.once.1)
    rw [inheritedOf, doc_root h, Doc.plain, ownFragment,
      Parameter.flatten_of_none (Fragment.get?_object (by decide)), declared, hown]
    exact ⟨_, Parameter.record_object _ _, fun k => by simp⟩
  | cons parent rest ih =>
    obtain ⟨steps, rfl⟩ : ∃ n, steps = n + 1 := Nat.exists_eq_succ_of_ne_zero (by
      rintro rfl
      cases hsteps)
    have hrest : ∀ e ∈ chain parent.1 parent.2 rest,
        components.get? e.1 = some (Input.doc defs e.2).fragment := fun e he => hdoc e (.tail _ he)
    obtain ⟨required, hrecord, hrequired⟩ := ih h.tail hrest (Nat.le_of_succ_le_succ hsteps)
    have hparent : components.get? parent.1 =
        some (Input.doc defs (inheritedOf parent.2 rest)).fragment := by
      obtain ⟨tail, htail⟩ := chain_eq_cons parent.1 parent.2 rest
      exact hrest (parent.1, inheritedOf parent.2 rest) (htail ▸ .head _)
    rw [doc_inheritedOf h, Parameter.flatten_pair,
      Parameter.resolve_reference hparent (referencedName_inheritedOf h.tail),
      ownFragment, Parameter.flatten_resolve_object, declared, List.map_append, Dict.ofList_append]
    refine ⟨_, hrecord.allOf (Parameter.record_object _ _) (Dict.nodup_names_ofList _), fun k => ?_⟩
    rw [Fragment.string_mem_foldl_addDistinct, Fragment.string_mem_foldl_addDistinct, hrequired,
      List.filter_append, Member.keys, Member.keys, Member.keys, List.map_append, List.mem_append]
    simp

/-- There are steps enough in `Parameter.flattenSteps` to merge the whole chain. -/
theorem length_ancestors_le (hnames : (name :: ancestors.map Prod.fst).Nodup)
    (hdoc : ∀ e ∈ chain name own ancestors,
      components.get? e.1 = some (Input.doc defs e.2).fragment) (f : Json) :
    ancestors.length ≤ Parameter.flattenSteps components f := by
  have hsub : name :: ancestors.map Prod.fst ⊆ components.names := by
    rw [← names_chain name own ancestors]
    intro n hn
    obtain ⟨e, he, rfl⟩ := List.mem_map.1 hn
    exact Dict.contains_iff.1 (by rw [Dict.contains, hdoc e he]; rfl)
  have hle : (name :: ancestors.map Prod.fst).length ≤ components.names.length :=
    (hnames.subperm hsub).length_le
  have htotal : components.length ≤ total (fun e => e.2.depth + 1) components :=
    length_le_total fun e _ => Nat.le_add_left 1 e.2.depth
  rw [List.length_cons, List.length_map, Dict.names, List.length_map] at hle
  rw [Parameter.flattenSteps]
  omega

end components

end InputStruct

namespace Input

variable [Regex.Engine] {defs : Dict Input} {s : InputStruct} {name : String}
  {own : List (Member Input)}
  {ancestors : List (String × List (Member Input))}

/-- The merged record of a chain, as the parameters of its last record see it by
`Parameter.shape`. -/
theorem record_shape (defs : Dict Input) (h : InputStruct.IsBasic own ancestors)
    (hnames : (name :: ancestors.map Prod.fst).Nodup) :
    ∃ required : List Json, Parameter.Record
        (Parameter.shape (reached defs (.referenced (InputStruct.inheritedOf own ancestors) name))
          (Fragment.reference name))
        (Dict.ofList ((InputStruct.declared own ancestors).map (entry defs))) required ∧
      ∀ k, .string k ∈ required ↔
        k ∈ Member.keys ((InputStruct.declared own ancestors).filter Member.required) := by
  have hdoc := InputStruct.get?_reached defs h hnames
  obtain ⟨tail, htail⟩ := InputStruct.chain_eq_cons name own ancestors
  rw [Parameter.shape, Parameter.resolve_reference
    (hdoc (name, InputStruct.inheritedOf own ancestors) (htail ▸ .head _))
    (InputStruct.referencedName_inheritedOf h)]
  exact InputStruct.record_flatten h hdoc (InputStruct.length_ancestors_le hnames hdoc _)

/-- **The parameters of a chain of records** with distinct names and `Basic` members, which may
declare keys again:

* there are such parameters `ps`, one for each key of `InputStruct.declared`, in the order in which
  the keys are first declared from the root of the chain on;
* each has the fragment that documents the declaration of its key that is in force
  (`Member.inForce?`);
* in a `path` all of them are required, and in a `query` those that the last record `s`, called on
  the empty object, reports as required (`Demands`). -/
theorem parameters_ofLevels (defs : Dict Input) (location : Location)
    (hs : InputStruct.ofLevels name own ancestors = .ok s)
    (hnames : (name :: ancestors.map Prod.fst).Nodup)
    (hbasic : ∀ m ∈ InputStruct.declared own ancestors, m.value.Basic) :
    ∃ ps, parameters defs (doc defs s.input) location = .ok ps ∧
      ps.map Parameter.name = (Member.keys (InputStruct.declared own ancestors)).eraseDups ∧
      (∀ p ∈ ps, p.location = location ∧
        ∃ m, Member.inForce? (InputStruct.declared own ancestors) p.name = some m ∧
          p.schema = (Doc.ofMember (m.map (doc defs))).fragment) ∧
      (location = .path → ∀ p ∈ ps, p.required) ∧
      (location = .query → ∀ k, (∃ p ∈ ps, p.name = k ∧ p.required) ↔ Demands defs s.input k) := by
  obtain ⟨honce, hinput⟩ := InputStruct.of_ofLevels hs
  have h : InputStruct.IsBasic own ancestors := ⟨honce, hbasic⟩
  have hfragment : (doc defs s.input).fragment = Fragment.reference name := by
    rw [hinput, doc, docAt_eq]
    rfl
  let entries := (InputStruct.declared own ancestors).map (entry defs)
  have hkeys : Dict.names entries = Member.keys (InputStruct.declared own ancestors) := List.map_map
  obtain ⟨required, hrecord, hrequired⟩ := record_shape defs h hnames
  have hscalar : ∀ e ∈ Dict.ofList entries, ∃ ks, e.2 = .object ks ∧ Parameter.Scalar ks := by
    intro e he
    obtain ⟨m, hm, rfl⟩ := List.mem_map.1 (Dict.mem_of_mem_ofList he)
    obtain ⟨ks, hks, hscalar⟩ := (hbasic m hm).isScalar_ofMember defs
    exact ⟨ks, congrArg Doc.fragment hks, hscalar⟩
  have hcontains : ∀ k, (required.filterMap Json.string?).contains k ↔ Demands defs s.input k := by
    intro k
    rw [hinput, InputStruct.demands_iff defs name honce, ← hrequired, List.contains_iff_mem,
      List.mem_filterMap]
    simp [Json.string?_eq_some_iff]
  rw [parameters_eq, hfragment, hinput, Parameter.project_record hrecord hscalar]
  refine ⟨_, rfl, ?names, ?schemas, ?path, ?query⟩
  case names =>
    rw [List.map_map, ← hkeys, ← Dict.names_ofList]
    rfl
  case schemas =>
    refine List.forall_mem_map.2 fun e he => ⟨rfl, ?_⟩
    have hget : (Dict.ofList entries).get? e.1 = some e.2 :=
      (Dict.get?_eq_some_iff (Dict.nodup_names_ofList entries)).2 he
    obtain ⟨m, hm, hfragment⟩ := Option.map_eq_some_iff.1
      ((Dict.get?_ofList_map Member.key (fun m => (entry defs m).2) _ e.1).symm.trans hget)
    exact ⟨m, hm, hfragment.symm⟩
  case path =>
    rintro rfl
    exact List.forall_mem_map.2 fun e _ => rfl
  case query =>
    rintro rfl k
    rw [← hinput]
    constructor
    · rintro ⟨p, hp, rfl, hr⟩
      obtain ⟨e, -, rfl⟩ := List.mem_map.1 hp
      exact (hcontains e.1).1 hr
    · intro hk
      have hmem : k ∈ Dict.names entries := by
        rw [hinput, InputStruct.demands_iff defs name honce] at hk
        exact hkeys ▸ List.map_subset Member.key (List.filter_subset_self _) hk
      obtain ⟨e, he, rfl⟩ := List.mem_map.1 (Dict.mem_names_ofList.2 hmem)
      exact ⟨_, List.mem_map_of_mem he, rfl, (hcontains e.1).2 hk⟩

end Input

namespace Input

attribute [local instance] Regex.Engine.standard

/-- A search that extends `sorted` pages. Pages have to be numbered; the search describes the number
anew and does not ask for it, which leaves it required. -/
theorem parameters_ofLevels_search :
    let pages : List (Member Input) := [⟨"page", .integer, true, none⟩,
      ⟨"size", .optional .integer, false, none⟩]
    let sorted : List (Member Input) :=
      [⟨"sort", .enum (.text none) [.string "name", .string "date"], false, some "the order"⟩]
    let search : List (Member Input) := [⟨"term", .text none, true, none⟩,
      ⟨"page", .described .integer "from 1 on", false, none⟩]
    ∃ s ps, InputStruct.ofLevels "Search" search [("Sorted", sorted), ("Pages", pages)] = .ok s ∧
      parameters [] (doc [] s.input) .query = .ok ps ∧
      ps.map Parameter.name = ["page", "size", "sort", "term"] ∧
      (∃ p ∈ ps, p.name = "page" ∧ p.required) ∧
      ∀ p ∈ ps, p.name = "page" → p.schema = .object [("type", .string "integer"),
        ("description", .string "from 1 on")] := by
  intro pages sorted search
  have hbasic : ∀ m ∈ InputStruct.declared search [("Sorted", sorted), ("Pages", pages)],
      m.value.Basic := by
    simp only [InputStruct.declared, pages, sorted, search, List.cons_append, List.nil_append,
      List.forall_mem_cons]
    exact ⟨.integer, .optional .integer, .enum (.text none) _, .text none, .described .integer _,
      List.forall_mem_nil _⟩
  have hs : InputStruct.ofLevels "Search" search [("Sorted", sorted), ("Pages", pages)] = .ok _ :=
    rfl
  obtain ⟨ps, hps, hnames, hschemas, -, hrequired⟩ :=
    parameters_ofLevels [] .query hs (by decide) hbasic
  refine ⟨_, ps, rfl, hps, hnames, (hrequired rfl "page").2 ?_, fun p hp hname => ?_⟩
  · exact ⟨_, rfl, ["is required"], by decide, .head _⟩
  · obtain ⟨-, m, hm, hschema⟩ := hschemas p hp
    rw [hname] at hm
    obtain rfl := Option.some.inj hm
    exact hschema

end Input

end JsonShape
