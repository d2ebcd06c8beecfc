import JsonShape.Proofs.Output.LayerComponents
import JsonShape.Proofs.Output.Overlay
import Mathlib.Data.List.Duplicate
import JsonShape.Regex.Pattern

/-!
# When a written record satisfies its documentation

A record with ancestors or views is documented by all of its layers, and is written with the members
of each layer over those of the layers below. So a written record has to satisfy, for each layer,
what its fields are documented as, and of two members of one name only one is written.

Fields that are declared once are written as they are documented. So a written record satisfies its
documentation exactly if the members that are declared more than once satisfy all of their
declarations (`OutputStruct.satisfies_component_iff`). That is where the components have names of
their own: a layer that has the name of another one is not listed, the references between the layers
form a circle, and nothing satisfies them.

* `Fits`: what the documentation of a stack of layers asks for.
* `Laid`: what holds of an object that a stack of layers wrote. One layer establishes it
  (`laid_object`), the next one keeps it (`Laid.extend`), and so it holds of stacks
  (`laid_stacked`).
-/

namespace JsonShape

/-- The fragment that documents the values of a field. -/
def Field.fragment (defs : Dict Output) (f : Field) : Json :=
  (Output.doc defs (f.property defs).value).fragment

namespace OutputStruct

open Output

variable [Regex.Engine] {components : Dict Json} {defs : Dict Output}
  {fields lower upper : List Field}
  {own top : Layer} {ancestors below : List Layer} {s : OutputStruct} {ws ws' : Dict Json}
  {limit : Nat} {view : Option String} {v w : Json}

/-! ## What the documentation asks for -/

/-- The object `ws` has the members that `fields` require, and each member satisfies the
documentation of every field of its name. -/
def Fits (components : Dict Json) (defs : Dict Output) (fields : List Field) (ws : Dict Json) :
    Prop :=
  ∀ f ∈ fields, (f.required → ws.contains f.name) ∧
    ∀ x, ws.get? f.name = some x → Satisfies components (f.fragment defs) x

theorem fits_append :
    Fits components defs (upper ++ lower) ws ↔
      Fits components defs upper ws ∧ Fits components defs lower ws :=
  List.forall_mem_append

/-- What the documentation of one layer asks for. -/
theorem satisfies_object_iff (h : (fields.map Field.name).Nodup) :
    Satisfies components (doc defs (Field.object defs fields)).fragment w ↔
      ∃ ws, w = .object ws ∧ Fits components defs fields ws := by
  let documented := (fields.map (Field.property defs)).map
    (withDoc (docLookup defs (lookupLimit defs)))
  have hdoc : doc defs (Field.object defs fields) = .record documented := by
    rw [doc, docAt_eq, Field.object, docWith_object]
  have hkeys : (Member.keys documented).Nodup := by
    rw [Member.keys, List.map_map]
    exact Field.keys_properties defs fields ▸ h
  have hfragment : ∀ f : Field, (docWith (docLookup defs (lookupLimit defs))
      (f.property defs).value).fragment = f.fragment defs := fun f => by
    rw [Field.fragment, doc, docAt_eq]
  rw [hdoc, Doc.satisfies_record, Member.distinct_of_nodup hkeys]
  simp only [documented, List.forall_mem_map, withDoc, hfragment]
  rfl

theorem satisfies_doc_merge {parent child : Output} :
    Satisfies components (doc defs (.merge parent child)).fragment v ↔
      Satisfies components (doc defs parent).fragment v ∧
        Satisfies components (doc defs child).fragment v := by
  rw [doc_merge]
  refine Fragment.satisfies_allOf.trans ?_
  simp

theorem satisfies_doc_referenced {inner : Output} {name : String} :
    Satisfies components (doc defs (.referenced inner name)).fragment v ↔
      ∃ f, components.get? name = some f ∧ Satisfies components f v := by
  rw [doc_referenced]
  exact Fragment.satisfies_reference

/-- **What the documentation of a stack asks for** is what that of each layer does: the members fit
all `fields`, by induction on the layers. -/
theorem satisfies_stacked_iff
    (hcomponents : ∀ e ∈ lineage defs below, components.get? e.1 = some (doc defs e.2).fragment)
    (hdistinct : ∀ l ∈ top :: below, l.Distinct) :
    Satisfies components (doc defs (stacked defs top below)).fragment (.object ws) ↔
      Fits components defs ((top :: below).flatMap Layer.fields) ws := by
  have hobject : ∀ l : Layer, l.Distinct →
      (Satisfies components (doc defs (Field.object defs l.fields)).fragment (.object ws) ↔
        Fits components defs l.fields ws) := by
    intro l hl
    rw [satisfies_object_iff hl.fields]
    simp
  induction below generalizing top with
  | nil =>
    rw [List.flatMap_singleton]
    exact hobject top (hdistinct top (.head _))
  | cons l below ih =>
    obtain ⟨htop, hdistinct⟩ := List.forall_mem_cons.1 hdistinct
    obtain ⟨hl, hcomponents⟩ := List.forall_mem_cons.1 hcomponents
    rw [stacked, satisfies_doc_merge, satisfies_doc_referenced, hobject top htop,
      List.flatMap_cons, fits_append, and_comm]
    refine and_congr_right fun _ => Iff.trans ?_ (ih hcomponents hdistinct)
    rw [hl]
    simp

/-! ## What layers write -/

/-- What holds of the object `ws` that `fields` of several layers wrote. -/
structure Laid (components : Dict Json) (defs : Dict Output) (fields : List Field)
    (ws : Dict Json) : Prop where
  names : ws.names ⊆ fields.map Field.name
  required : ∀ f ∈ fields, f.required → ws.contains f.name
  /-- A field that is declared once is written as it is documented. -/
  once : ∀ f ∈ fields, ¬(fields.map Field.name).Duplicate f.name →
    ∀ x, ws.get? f.name = some x → Satisfies components (f.fragment defs) x

/-- One layer writes what it is documented as. -/
theorem laid_object (hplain : ∀ f ∈ fields, (f.property defs).value.Plain defs)
    (hnodup : (fields.map Field.name).Nodup)
    (hw : reportAt defs limit (Field.object defs fields) view v = some (.ok w)) :
    ∃ ws : Dict Json, w = .object ws ∧ ws.names.Nodup ∧ Laid components defs fields ws := by
  have hsatisfies : Satisfies components (doc defs (Field.object defs fields)).fragment w :=
    satisfies_docAt (plain_object hplain) hw
  obtain ⟨ws, rfl, hfits⟩ := (satisfies_object_iff hnodup).1 hsatisfies
  rw [reportAt_eq] at hw
  obtain ⟨ws', hws, hsub, -⟩ := reportWith_object_eq_ok.1 hw
  obtain rfl := Json.object.inj hws
  rw [inForce_of_nodup (Field.keys_properties defs fields ▸ hnodup),
    Field.keys_properties] at hsub
  exact ⟨ws, rfl, hsub.nodup hnodup, hsub.subset, fun f hf => (hfits f hf).1,
    fun f hf _ => (hfits f hf).2⟩

omit [Regex.Engine] in
/-- What stands once in two lists stands in one of them only. -/
theorem notMem_of_not_duplicate {α : Type} {a : α} {l l' : List α} (h : ¬(l ++ l').Duplicate a)
    (hl : a ∈ l) : a ∉ l' := by
  intro hl'
  refine h (List.duplicate_iff_sublist.2 ?_)
  exact (List.singleton_sublist.2 hl).append (List.singleton_sublist.2 hl')

/-- **A layer that is laid over others keeps what holds of them**: `ws'`, with the fields `upper`,
is laid over `ws`. -/
theorem Laid.extend (hlower : Laid components defs lower ws)
    (hupper : Laid components defs upper ws') (hnodup : ws'.names.Nodup) :
    Laid components defs (upper ++ lower) (ws.extend ws') := by
  constructor
  · intro k hk
    rw [List.map_append, List.mem_append]
    exact (Dict.mem_names_extend.1 hk).symm.imp (@hupper.names k) (@hlower.names k)
  · intro f hf hrequired
    rw [Dict.contains_iff, Dict.mem_names_extend, ← Dict.contains_iff, ← Dict.contains_iff]
    rcases List.mem_append.1 hf with hf | hf
    · exact Or.inr (hupper.required f hf hrequired)
    · exact Or.inl (hlower.required f hf hrequired)
  · intro f hf honce x hx
    rw [List.map_append] at honce
    rw [Dict.get?_extend_of_nodup hnodup] at hx
    rcases List.mem_append.1 hf with hf | hf
    · -- no layer below has written a member of this name
      have hnone : ws.get? f.name = none := Dict.get?_eq_none_iff.2 fun hmem =>
        notMem_of_not_duplicate honce (List.mem_map_of_mem hf) (hlower.names hmem)
      rw [hnone, Option.or_none] at hx
      exact hupper.once f hf (fun hdup => honce (hdup.mono_sublist (List.sublist_append_left _ _)))
        x hx
    · have hnone : ws'.get? f.name = none := Dict.get?_eq_none_iff.2 fun hmem =>
        notMem_of_not_duplicate honce (hupper.names hmem) (List.mem_map_of_mem hf)
      rw [hnone, Option.none_or] at hx
      exact hlower.once f hf (fun hdup => honce (hdup.mono_sublist (List.sublist_append_right _ _)))
        x hx

/-- **What a stack of layers writes** is `Laid`, by induction on the layers. -/
theorem laid_stacked (hplain : ∀ l ∈ top :: below, l.Plain defs)
    (hdistinct : ∀ l ∈ top :: below, l.Distinct)
    (hw : reportAt defs limit (stacked defs top below) view v = some (.ok w)) :
    ∃ ws, w = .object ws ∧ Laid components defs ((top :: below).flatMap Layer.fields) ws := by
  induction below generalizing top w with
  | nil =>
    obtain ⟨ws, rfl, -, hlaid⟩ :=
      laid_object (hplain top (.head _)).fields (hdistinct top (.head _)).fields hw
    rw [List.flatMap_singleton]
    exact ⟨ws, rfl, hlaid⟩
  | cons l below ih =>
    obtain ⟨hptop, hplain⟩ := List.forall_mem_cons.1 hplain
    obtain ⟨hdtop, hdistinct⟩ := List.forall_mem_cons.1 hdistinct
    rw [reportAt_eq] at hw
    obtain ⟨p, c, hp, hc, rfl⟩ := reportWith_merge_eq_ok.1 hw
    rw [reportWith, ← reportAt_eq] at hp
    rw [← reportAt_eq] at hc
    obtain ⟨ws, rfl, hlower⟩ := ih hplain hdistinct hp
    obtain ⟨ws', rfl, hnodup, hupper⟩ := laid_object hptop.fields hdtop.fields hc
    exact ⟨_, rfl, hlower.extend hupper hnodup⟩

/-- What is laid out fits if the members that are declared more than once do. -/
theorem Laid.fits_iff (h : Laid components defs fields ws) :
    Fits components defs fields ws ↔
      ∀ f ∈ fields, (fields.map Field.name).Duplicate f.name →
        ∀ x, ws.get? f.name = some x → Satisfies components (f.fragment defs) x := by
  constructor
  · exact fun hfits f hf _ => (hfits f hf).2
  · refine fun hdup f hf => ⟨h.required f hf, ?_⟩
    by_cases hf' : (fields.map Field.name).Duplicate f.name
    · exact hdup f hf hf'
    · exact h.once f hf hf'

/-- **When what a stack writes satisfies its documentation**: if the members that are declared more
than once do. All others were checked where they were written. -/
theorem satisfies_stacked_iff_of_report
    (hcomponents : ∀ e ∈ lineage defs below, components.get? e.1 = some (doc defs e.2).fragment)
    (hplain : ∀ l ∈ top :: below, l.Plain defs) (hdistinct : ∀ l ∈ top :: below, l.Distinct)
    (hw : reportAt defs limit (stacked defs top below) view v = some (.ok w)) :
    let fields := (top :: below).flatMap Layer.fields
    Satisfies components (doc defs (stacked defs top below)).fragment w ↔
      ∀ f ∈ fields, (fields.map Field.name).Duplicate f.name →
        ∀ x, w.get? f.name = some x → Satisfies components (f.fragment defs) x := by
  intro fields
  obtain ⟨ws, rfl, hlaid⟩ : ∃ ws, w = .object ws ∧ Laid components defs fields ws :=
    laid_stacked hplain hdistinct hw
  rw [satisfies_stacked_iff hcomponents hdistinct]
  exact hlaid.fits_iff

/-! ## Records -/

/-- The name of the component that documents the requested view of a record. -/
def Layer.componentName (own : Layer) : (view : Option String) → String
  | none => own.name
  | some view => if Dict.contains own.views view then own.name ++ "." ++ view else own.name

/-- The fields that the record `own` declares for the requested view, the view's own ones first and
then those of its `ancestors`. -/
def declared (own : Layer) (ancestors : List Layer) (view : Option String) : List Field :=
  Blueprint.requested own.views view ++ (own :: ancestors).flatMap Layer.fields

/-- The stacks of a record: its own, and those with the layer of a view on top. -/
inductive IsHead (own : Layer) (ancestors : List Layer) : Layer → List Layer → Prop
  | own : IsHead own ancestors own ancestors
  | view {e : String × List Field} (he : e ∈ own.views) :
    IsHead own ancestors (own.viewLayer e) (own :: ancestors)

omit [Regex.Engine] in
theorem IsHead.mem_heads (h : IsHead own ancestors top below) :
    (top.name, stacked defs top below) ∈ heads defs own ancestors := by
  cases h with
  | own => exact .head _
  | view he => exact .tail _ (List.mem_map.2 ⟨_, he, rfl⟩)

omit [Regex.Engine] in
/-- Below the top lie layers of the record. -/
theorem IsHead.lineage_subset (h : IsHead own ancestors top below) :
    lineage defs below ⊆ lineage defs (own :: ancestors) := by
  cases h with
  | own => exact List.subset_cons_self _ _
  | view _ => exact List.Subset.refl _

omit [Regex.Engine] in
/-- What holds of the fields of a record and of its ancestors holds of those of such a stack. -/
theorem IsHead.forall_all {P : List Field → Prop} (h : IsHead own ancestors top below)
    (hall : ∀ l ∈ own :: ancestors, l.All P) : ∀ l ∈ top :: below, l.All P := by
  cases h with
  | own => exact hall
  | view he => exact List.forall_mem_cons.2 ⟨(hall own (.head _)).viewLayer he, hall⟩

omit [Regex.Engine] in
/-- The requested view of a record is one of its stacks. -/
theorem Layered.exists_head {shapes : Dict Output} (h : Layered defs own ancestors s shapes)
    (view : Option String) : ∃ top below, IsHead own ancestors top below ∧
      chosen s.base shapes view = .referenced (stacked defs top below) top.name ∧
      top.name = own.componentName view ∧
      (top :: below).flatMap Layer.fields = declared own ancestors view := by
  cases view with
  | none => exact ⟨own, ancestors, .own, h.base, rfl, rfl⟩
  | some name =>
    rw [chosen_some, Layer.componentName, declared, Blueprint.requested, Option.bind_some,
      Dict.contains]
    rcases h.made.get? name with ⟨hview, hshape⟩ | ⟨fields, o, hview, hshape, ho⟩
    · rw [hview, hshape]
      exact ⟨own, ancestors, .own, h.base, rfl, rfl⟩
    · rw [hview, hshape]
      exact ⟨own.viewLayer (name, fields), own :: ancestors, .view (Dict.mem_of_get? hview),
        viewShape_eq_stacked h.base ho, rfl, rfl⟩

/-- **When a written record satisfies its documentation.** For every record `own` over any
`ancestors`, whose fields are plain, and every requested view, the component of the view is listed,
and `w`, which the record writes with checks, satisfies it if and only if the components have names
of their own (`componentNames`), and each member that is declared more than once satisfies the
documentation of all its declarations. -/
theorem satisfies_component_iff (defs : Dict Output) (own : Layer) (ancestors : List Layer)
    (s : OutputStruct) (hs : ofLayers defs own ancestors = .ok s)
    (hplain : ∀ l ∈ own :: ancestors, l.Plain defs) (view : Option String) (v w : Json)
    (hw : report defs s.output view v = some (.ok w)) :
    let components := Output.components defs [doc defs s.output]
    let fields := declared own ancestors view
    ∃ fragment, components.get? (own.componentName view) = some fragment ∧
      (Satisfies components fragment w ↔ (componentNames own ancestors).Nodup ∧
        ∀ f ∈ fields, (fields.map Field.name).Duplicate f.name →
          ∀ x, w.get? f.name = some x → Satisfies components (f.fragment defs) x) := by
  intro components fields
  obtain ⟨shapes, h⟩ := layered_of_ofLayers hs
  obtain ⟨top, below, htop, hchosen, hname, hfields⟩ := h.exists_head view
  have hbase : baseView ∉ shapes.names := by
    rw [h.made.names]
    exact h.declarable.1
  rw [report, reportAt_eq, (Blueprint.alike_record hbase h.output view).report, hchosen, reportWith,
    ← reportAt_eq] at hw
  have hget : components.get? top.name = some (doc defs (stacked defs top below)).fragment :=
    h.get?_heads hplain _ htop.mem_heads
  refine ⟨_, hname ▸ hget, ?_⟩
  by_cases hnames : (componentNames own ancestors).Nodup
  · have hlineage : ∀ e ∈ lineage defs below, components.get? e.1 = some (doc defs e.2).fragment :=
      fun e he => h.get?_lineage hplain hnames e (htop.lineage_subset he)
    have hiff := satisfies_stacked_iff_of_report hlineage (htop.forall_all hplain)
      (htop.forall_all h.distinct) hw
    rw [hfields] at hiff
    exact hiff.trans (and_iff_right hnames).symm
  · refine iff_of_false (fun hsatisfies => ?_) fun hright => hnames hright.1
    exact Fragment.not_satisfies_of_circular (h.circular hplain hnames) hsatisfies
      ⟨top.name, Or.inl hget⟩

end OutputStruct

namespace OutputStruct

open Output

attribute [local instance] Regex.Engine.standard

/-- The name of a person, and in a view of the staff the title in its place, which may be
missing. -/
theorem satisfies_component_staff :
    let id : Field := ⟨"id", .ready .integer, none, none, true⟩
    let name : Field := ⟨"name", .ready (.text none), none, none, true⟩
    let title : Field := ⟨"name", .ready (.optional (.text none)), some (·.getOrNull "title"),
      some "the title", false⟩
    let person : Layer := ⟨"Person", [id, name], []⟩
    let staff : Layer := ⟨"Staff", [], [("formal", [title])]⟩
    let bob : Json := .object [("id", .number (.int 7)), ("name", .string "Bob"),
      ("title", .string "Dr. Bob")]
    let written : Json := .object [("id", .number (.int 7)), ("name", .string "Dr. Bob")]
    ∃ s fragment, ofLayers [] staff [person] = .ok s ∧
      report [] s.output (some "formal") bob = some (.ok written) ∧
      (Output.components [] [doc [] s.output]).get? "Staff.formal" = some fragment ∧
      Satisfies (Output.components [] [doc [] s.output]) fragment written := by
  intro id name title person staff bob written
  have hid : Plain [] (id.property []).value := plain_integer
  have hname : Plain [] (name.property []).value := plain_text none
  have htitle : Plain [] (title.property []).value :=
    plain_of_children rfl nofun (List.forall_mem_singleton.2 (plain_text none))
  have hplain : ∀ l ∈ [staff, person], l.Plain [] := by
    refine List.forall_mem_cons.2 ⟨?_, List.forall_mem_singleton.2 ?_⟩
    · exact List.forall_mem_cons.2 ⟨nofun, List.forall_mem_singleton.2
        (List.forall_mem_singleton.2 htitle)⟩
    · exact List.forall_mem_singleton.2
        (List.forall_mem_cons.2 ⟨hid, List.forall_mem_singleton.2 hname⟩)
  have hbuild : ofLayers [] staff [person] = .ok _ := rfl
  obtain ⟨fragment, hfragment, hiff⟩ :=
    satisfies_component_iff [] staff [person] _ hbuild hplain (some "formal") bob written rfl
  refine ⟨_, fragment, hbuild, rfl, hfragment, hiff.2 ⟨by decide, ?_⟩⟩
  have hfields : declared staff [person] (some "formal") = [title, id, name] := rfl
  rw [hfields]
  refine List.forall_mem_cons.2 ⟨fun _ x hx => ?_, List.forall_mem_cons.2 ⟨fun hdup => ?_,
    List.forall_mem_singleton.2 fun _ x hx => ?_⟩⟩
  · obtain rfl := Option.some.inj hx
    exact Fragment.satisfies_nullable.2 (Or.inr (satisfies_type.2 rfl))
  · exact absurd hdup (by decide)
  · obtain rfl := Option.some.inj hx
    exact satisfies_type.2 rfl

/-- An owner that a view writes without the address, and a record under the name of its parent:
both are written with checks, and what is written does not satisfy the component that is listed. -/
theorem not_satisfies_component_owner :
    let id : Field := ⟨"id", .ready .integer, none, none, true⟩
    let email : Field := ⟨"email", .ready (.text none), none, none, true⟩
    let owner : Field := ⟨"owner", .ready (Field.object [] [id, email]), none, none, true⟩
    let short : Field := ⟨"owner", .ready (Field.object [] [id]), none, none, true⟩
    let item : Layer := ⟨"Item", [owner], [("brief", [short])]⟩
    let amy : Json := .object [("id", .number (.int 7)), ("email", .string "amy@example.org")]
    let written : Json := .object [("owner", .object [("id", .number (.int 7))])]
    (∃ s fragment, ofLayers [] item [] = .ok s ∧
      report [] s.output (some "brief") (.object [("owner", amy)]) = some (.ok written) ∧
      (Output.components [] [doc [] s.output]).get? "Item.brief" = some fragment ∧
      ¬Satisfies (Output.components [] [doc [] s.output]) fragment written) ∧
    ∃ s fragment, ofLayers [] ⟨"Item", [id], []⟩ [⟨"Item", [email], []⟩] = .ok s ∧
      report [] s.output none amy = some (.ok (.object
        [("email", .string "amy@example.org"), ("id", .number (.int 7))])) ∧
      (Output.components [] [doc [] s.output]).get? "Item" = some fragment ∧
      ¬Satisfies (Output.components [] [doc [] s.output]) fragment
        (.object [("email", .string "amy@example.org"), ("id", .number (.int 7))]) := by
  intro id email owner short item amy written
  have hid : Plain [] (id.property []).value := plain_integer
  have hemail : Plain [] (email.property []).value := plain_text none
  constructor
  · have howner : Plain [] (owner.property []).value :=
      plain_object (List.forall_mem_cons.2 ⟨hid, List.forall_mem_singleton.2 hemail⟩)
    have hshort : Plain [] (short.property []).value :=
      plain_object (List.forall_mem_singleton.2 hid)
    have hplain : ∀ l ∈ [item], l.Plain [] :=
      List.forall_mem_singleton.2 (List.forall_mem_cons.2 ⟨List.forall_mem_singleton.2 howner,
        List.forall_mem_singleton.2 (List.forall_mem_singleton.2 hshort)⟩)
    have hbuild : ofLayers [] item [] = .ok _ := rfl
    obtain ⟨shapes, h⟩ := layered_of_ofLayers hbuild
    have hview := h.get?_heads hplain _ (.tail _ (.head _))
    refine ⟨_, _, hbuild, rfl, hview, fun hsatisfies => ?_⟩
    -- the owner that is written has to satisfy what the base says of an owner
    have hhead : IsHead item [] (item.viewLayer ("brief", [short])) [item] := .view (.head _)
    have hfits := (satisfies_stacked_iff (h.get?_lineage hplain (by decide))
      (hhead.forall_all h.distinct)).1 hsatisfies
    have hwritten := (hfits owner (.tail _ (.head _))).2 _ rfl
    obtain ⟨ws, hws, hrequired⟩ := (satisfies_object_iff (by decide)).1 hwritten
    obtain rfl := Json.object.inj hws
    exact absurd ((hrequired email (.tail _ (.head _))).1 rfl) (by decide)
  · have hplain : ∀ l ∈ [(⟨"Item", [id], []⟩ : Layer), ⟨"Item", [email], []⟩], l.Plain [] :=
      List.forall_mem_cons.2 ⟨List.forall_mem_singleton.2 (List.forall_mem_singleton.2 hid),
        List.forall_mem_singleton.2
          (List.forall_mem_singleton.2 (List.forall_mem_singleton.2 hemail))⟩
    have hbuild : ofLayers [] ⟨"Item", [id], []⟩ [⟨"Item", [email], []⟩] = .ok _ := rfl
    obtain ⟨shapes, h⟩ := layered_of_ofLayers hbuild
    have hget := h.get?_heads hplain _ (.head _)
    exact ⟨_, _, hbuild, rfl, hget, fun hsatisfies =>
      Fragment.not_satisfies_of_circular (h.circular hplain (by decide)) hsatisfies
        ⟨"Item", Or.inl hget⟩⟩

end OutputStruct

end JsonShape
