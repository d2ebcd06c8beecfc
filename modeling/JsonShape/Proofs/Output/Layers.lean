import JsonShape.Proofs.Output.Build
import JsonShape.Proofs.Output.Documentation

/-!
# Records as layers

A record lies over its ancestors layer by layer: its parent, the parent of that, and so on. Each
view is one more layer on top. Each layer that lies over others is documented by a reference to the
one below it and by its own fields.

* `OutputStruct.ofLayers` builds a record over its ancestors, and `stacked` is the output of a
  stack.
* `OutputStruct.layered_of_ofLayers`: a record that is built is such a stack, and so are its views.
* `OutputStruct.found_stacked`, `Layered.found_output`: a stack mentions the one below its top, and
  a record mentions itself and its views.
-/

namespace JsonShape

namespace OutputStruct

open Output

/-- A record as it is declared: its name, its fields, and its views with theirs. -/
structure Layer where
  name : String
  fields : List Field
  views : List (String × List Field)

/-- Builds the record `own` over its ancestors, the parent first. -/
def ofLayers (defs : Dict Output) (own : Layer) : List Layer → Except DefinitionError OutputStruct
  | [] => build defs own.name none own.fields own.views
  | parent :: rest => do
    let parent ← ofLayers defs parent rest
    build defs own.name (some parent) own.fields own.views

/-! ## Stacks -/

/-- The fields of `top` over those of the layers below, each layer under its name. -/
def stacked (defs : Dict Output) (top : Layer) : List Layer → Output
  | [] => Field.object defs top.fields
  | l :: below => .merge (.referenced (stacked defs l below) l.name) (Field.object defs top.fields)

/-- The stacks that end at one of the layers, under their names. -/
def lineage (defs : Dict Output) : List Layer → Dict Output
  | [] => []
  | l :: below => (l.name, stacked defs l below) :: lineage defs below

/-- The layer that a view lays over its record. -/
def Layer.viewLayer (own : Layer) (e : String × List Field) : Layer :=
  ⟨own.name ++ "." ++ e.1, e.2, []⟩

/-- The stacks of the views of a record. -/
def viewStacks (defs : Dict Output) (own : Layer) (ancestors : List Layer) : Dict Output :=
  own.views.map fun e =>
    ((own.viewLayer e).name, stacked defs (own.viewLayer e) (own :: ancestors))

/-- The stacks of a record and of its views. -/
def heads (defs : Dict Output) (own : Layer) (ancestors : List Layer) : Dict Output :=
  (own.name, stacked defs own ancestors) :: viewStacks defs own ancestors

/-- The names of the components of a record. -/
def componentNames (own : Layer) (ancestors : List Layer) : List String :=
  own.views.map (fun e => own.name ++ "." ++ e.1) ++ (own :: ancestors).map Layer.name

variable {defs : Dict Output} {own top : Layer} {ancestors below : List Layer} {s : OutputStruct}
  {name : String} {p : Output}

theorem names_viewStacks (defs : Dict Output) (own : Layer) (ancestors : List Layer) :
    (viewStacks defs own ancestors).names = own.views.map fun e => own.name ++ "." ++ e.1 := by
  rw [Dict.names, viewStacks, List.map_map]
  rfl

theorem length_viewStacks (defs : Dict Output) (own : Layer) (ancestors : List Layer) :
    (viewStacks defs own ancestors).length = own.views.length :=
  List.length_map _

/-- What holds of the fields of a record and of those of each view. -/
def Layer.All (P : List Field → Prop) (l : Layer) : Prop :=
  ∀ fields ∈ l.fields :: Dict.values l.views, P fields

theorem Layer.All.fields {P : List Field → Prop} (h : own.All P) : P own.fields := h _ (.head _)

theorem Layer.All.viewLayer {P : List Field → Prop} (h : own.All P) {e : String × List Field}
    (he : e ∈ own.views) : (own.viewLayer e).All P :=
  List.forall_mem_singleton.2 (h _ (.tail _ (List.mem_map_of_mem (f := Prod.snd) he)))

/-- No field has the name of another one of the same list. -/
def Layer.Distinct (l : Layer) : Prop := l.All fun fields => (fields.map Field.name).Nodup

/-- What the record `s` consists of, which is built from `own` over `ancestors`: `shapes` are those
of its views. -/
structure Layered (defs : Dict Output) (own : Layer) (ancestors : List Layer) (s : OutputStruct)
    (shapes : Dict Output) : Prop where
  base : s.base = .referenced (stacked defs own ancestors) own.name
  distinct : ∀ l ∈ own :: ancestors, l.Distinct
  declarable : Declarable own.views
  made : Shapes (viewShape defs own.name s.base) own.views shapes
  output : s.output = if shapes.isEmpty then s.base else .viewed [] s.base shapes

/-- Views whose shapes are made have no name of a field twice. -/
theorem distinct_of_shapes {shapes : Dict Output}
    (hnodup : (own.fields.map Field.name).Nodup)
    (h : Shapes (viewShape defs name p) own.views shapes) : own.Distinct := by
  refine List.forall_mem_cons.2 ⟨hnodup, List.forall_mem_map.2 fun e he => ?_⟩
  obtain ⟨_, -, -, hshape⟩ := exists_of_forall₂_of_mem h he
  exact (viewShape_eq_ok.1 hshape).1

/-- **A record that is built is a stack** (`Layered`), by induction on its ancestors. -/
theorem layered_of_ofLayers (h : ofLayers defs own ancestors = .ok s) :
    ∃ shapes, Layered defs own ancestors s shapes := by
  induction ancestors generalizing own s with
  | nil =>
    obtain ⟨hnodup, hviews, -, hown, hinherited, hbase, shapes, hshapes, houtput⟩ :=
      build_eq_ok.1 h
    have hdistinct := List.forall_mem_singleton.2 (distinct_of_shapes hnodup hshapes)
    refine ⟨shapes, ?_, hdistinct, hviews, hshapes, houtput⟩
    rw [hbase, hinherited, hown]
    rfl
  | cons parent rest ih =>
    obtain ⟨q, hq, h⟩ := Except.bind_eq_ok.1 h
    obtain ⟨hnodup, hviews, -, hown, hinherited, hbase, shapes, hshapes, houtput⟩ :=
      build_eq_ok.1 h
    obtain ⟨-, hparent, hrest, -⟩ := ih hq
    have hdistinct := List.forall_mem_cons.2 ⟨distinct_of_shapes hnodup hshapes, hrest⟩
    refine ⟨shapes, ?_, hdistinct, hviews, hshapes, houtput⟩
    rw [hbase, hinherited, hown, inherit, hparent]
    rfl

/-- A view that is built is a stack with one layer more. -/
theorem viewShape_eq_stacked (hbase : s.base = .referenced (stacked defs own ancestors) own.name)
    {e : String × List Field} {o : Output} (h : viewShape defs own.name s.base e.1 e.2 = .ok o) :
    o = .referenced (stacked defs (own.viewLayer e) (own :: ancestors)) (own.viewLayer e).name := by
  obtain ⟨-, rfl⟩ := viewShape_eq_ok.1 h
  rw [hbase]
  rfl

/-! ## What is mentioned -/

/-- The outputs of all fields are plain. -/
def Layer.Plain (defs : Dict Output) (l : Layer) : Prop :=
  l.All fun fields => ∀ f ∈ fields, (f.property defs).value.Plain defs

theorem plain_object {fields : List Field} (h : ∀ f ∈ fields, (f.property defs).value.Plain defs) :
    (Field.object defs fields).Plain defs :=
  plain_of_children rfl nofun (List.forall_mem_map.2 (List.forall_mem_map.2 h))

theorem doc_merge (parent child : Output) :
    doc defs (.merge parent child) = .allOf (doc defs parent) (doc defs child) := by
  simp only [doc, docAt_eq, docWith]

theorem doc_referenced (inner : Output) (name : String) :
    doc defs (.referenced inner name) = .reference name inner := by
  rw [doc, docAt_eq, docWith]

/-- A stack mentions the one below its top. -/
theorem found_stacked (h : top.Plain defs) (below : List Layer) :
    (doc defs (stacked defs top below)).found = (lineage defs below).take 1 := by
  have hown : (doc defs (Field.object defs top.fields)).found = [] := (plain_object h.fields).found
  cases below with
  | nil => exact hown
  | cons l below =>
    rw [stacked, doc_merge, doc_referenced]
    change (Dict.absorb [(l.name, _)] (doc defs (Field.object defs top.fields)).found) = _
    rw [hown]
    rfl

/-- The names of the views of a record are distinct, and the record has none of them. -/
theorem nodup_heads (defs : Dict Output) (ancestors : List Layer) (h : Declarable own.views) :
    (heads defs own ancestors).names.Nodup := by
  rw [heads, Dict.names_cons, List.nodup_cons, names_viewStacks]
  constructor
  · intro hmem
    obtain ⟨e, -, heq⟩ := List.mem_map.1 hmem
    have hlength := congrArg String.length heq
    have hpoint : ".".length = 1 := rfl
    simp only [String.length_append, hpoint] at hlength
    omega
  · have hinjective : Function.Injective fun view => own.name ++ "." ++ view :=
      fun _ _ => (String.append_right_inj _).1
    have hmap := h.2.map hinjective
    rwa [Dict.names, List.map_map] at hmap

/-- A record mentions itself and its views. -/
theorem Layered.found_output {shapes : Dict Output} (h : Layered defs own ancestors s shapes) :
    (doc defs s.output).found = heads defs own ancestors := by
  have hvalues : (own.views.map fun e => Output.referenced
      (stacked defs (own.viewLayer e) (own :: ancestors)) (own.viewLayer e).name) =
        shapes.values :=
    map_eq_of_forall₂ h.made fun e _ hes => (viewShape_eq_stacked h.base hes.2).symm
  rw [h.output]
  cases shapes with
  | nil =>
    have hviews : own.views = [] := List.map_eq_nil_iff.1 hvalues
    rw [h.base, heads, viewStacks, hviews]
    exact congrArg Doc.found (doc_referenced _ _)
  | cons e rest =>
    have hdocs : (children (.viewed [] s.base (e :: rest))).map (doc defs) =
        (heads defs own ancestors).map fun e => Doc.reference e.1 e.2 := by
      change doc defs s.base :: (Dict.values (e :: rest)).map (doc defs) = _
      rw [← hvalues, h.base, doc_referenced, heads, viewStacks, List.map_cons, List.map_map,
        List.map_map]
      exact congrArg _ (List.map_congr_left fun e _ => doc_referenced _ _)
    have hdoc : doc defs (.viewed [] s.base (e :: rest)) =
        .combine ((children (.viewed [] s.base (e :: rest))).map (doc defs)) Fragment.oneOf := by
      rw [doc, docAt_eq, docWith_viewed]
      exact congrArg (Doc.combine · _) (List.map_congr_left fun _ _ => (docAt_eq ..).symm)
    rw [List.isEmpty_cons, if_neg Bool.false_ne_true, hdoc, hdocs]
    exact Doc.found_combine_reference (nodup_heads defs ancestors h.declarable)

end OutputStruct

end JsonShape
