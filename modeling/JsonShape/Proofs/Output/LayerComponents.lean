import JsonShape.Proofs.Output.Layers
import JsonShape.Proofs.Schema.Collect

/-!
# The components of a record

The components of a record are the stacks of layers that end at the record, at one of its views or
at one of its ancestors. They are collected from the views down, layer by layer, and a name that is
written down already is not followed.

* `followed`: what is written down along the layers, and `collectFrom_followed`, `components_eq`:
  this is what is collected.
* `get?_heads`, `get?_lineage`: a record and its views are listed, documented as their stacks are,
  and where the names are distinct the ancestors are, too.
* `circular`: where the names are not distinct, the components refer to one another in a circle.
-/

namespace JsonShape

namespace OutputStruct

open Output

variable {defs : Dict Output} {own top : Layer} {ancestors below : List Layer} {s : OutputStruct}

/-! ## What is collected -/

/-- The components that are written down beside `finished` when layers are followed down to the
first one whose name is there already. -/
def followed (defs : Dict Output) : (finished : Dict Json) → List Layer → Dict Json
  | finished, [] => finished
  | finished, l :: below =>
    if finished.contains l.name then finished
    else followed defs (finished.insert l.name (doc defs (stacked defs l below)).fragment) below

variable {finished : Dict Json} {steps : Nat}

theorem followed_of_notMem (h : top.name ∉ finished.names) (below : List Layer) :
    followed defs finished (top :: below) =
      followed defs (finished.insert top.name (doc defs (stacked defs top below)).fragment)
        below := by
  rw [followed, if_neg fun hc => h (Dict.contains_iff.1 hc)]

/-- **A search from a stack follows its layers**, and has `steps` enough if there is one for
each. -/
theorem collectFrom_followed (hplain : ∀ l ∈ top :: below, l.Plain defs)
    (htop : top.name ∉ finished.names) (hsteps : below.length ≤ steps) :
    Components.collectFrom (m := Id) (fun o => pure (doc defs o)) (steps + 1)
        [(top.name, stacked defs top below)] finished =
      some (followed defs finished (top :: below)) := by
  induction below generalizing top finished steps with
  | nil =>
    have hfound := found_stacked (hplain top (.head _)) []
    rw [Components.collectFrom_cons htop, followed_of_notMem htop, Components.pushed, hfound]
    cases steps <;> rfl
  | cons l below ih =>
    obtain ⟨htopPlain, hplain⟩ := List.forall_mem_cons.1 hplain
    obtain ⟨steps, rfl⟩ := Nat.exists_eq_add_one.2 (Nat.zero_lt_of_lt hsteps)
    have hfound : (doc defs (stacked defs top (l :: below))).found =
        [(l.name, stacked defs l below)] := found_stacked htopPlain (l :: below)
    rw [Components.collectFrom_cons htop, followed_of_notMem htop]
    by_cases hl : l.name ∈ (finished.insert top.name
        (doc defs (stacked defs top (l :: below))).fragment).names
    · -- the layer below has a name that is written down, and the search ends
      have hpushed : Components.pushed (doc defs) finished top.name
          (stacked defs top (l :: below)) = [] := by
        refine List.eq_nil_iff_forall_not_mem.2 fun e he => ?_
        obtain ⟨he, hnew, hne⟩ := Components.mem_pushed.1 he
        obtain rfl := List.mem_singleton.1 (hfound ▸ he)
        exact (Dict.mem_names_insert.1 hl).elim hnew hne
      rw [hpushed, followed, if_pos (Dict.contains_iff.2 hl)]
      rfl
    · have hpushed : Components.pushed (doc defs) finished top.name
          (stacked defs top (l :: below)) = [(l.name, stacked defs l below)] := by
        rw [Dict.mem_names_insert, not_or, ← Dict.contains_iff] at hl
        rw [Components.pushed, hfound]
        simp [hl]
      rw [hpushed]
      exact ih hplain hl (Nat.le_of_succ_le_succ hsteps)

/-- Views mention their record only, which waits behind them. -/
theorem collectFrom_views {views : Dict Output} {e : String × Output}
    (hfound : ∀ q ∈ views, (doc defs q.2).found = [e])
    (hnodup : (Dict.names (views ++ [e])).Nodup)
    (hnew : ∀ n ∈ Dict.names (views ++ [e]), n ∉ finished.names) (steps : Nat) :
    Components.collectFrom (m := Id) (fun o => pure (doc defs o)) (steps + views.length)
        (views ++ [e]) finished =
      Components.collectFrom (m := Id) (fun o => pure (doc defs o)) steps [e]
        (finished.extend (views.mapValues fun o => (doc defs o).fragment)) := by
  induction views generalizing finished with
  | nil => rfl
  | cons q rest ih =>
    obtain ⟨hq, hrest⟩ := List.forall_mem_cons.1 hfound
    obtain ⟨hqnew, hnew⟩ := List.forall_mem_cons.1 hnew
    obtain ⟨hqnodup, hnodup⟩ := List.nodup_cons.1 hnodup
    have hpush : Components.push (rest ++ [e]) (Components.pushed (doc defs) finished q.1 q.2) =
        rest ++ [e] := by
      refine Components.push_of_subset fun n hn => ?_
      obtain ⟨f, hf, rfl⟩ := List.mem_map.1 hn
      obtain rfl := List.mem_singleton.1 (hq ▸ (Components.mem_pushed.1 hf).1)
      exact List.mem_map_of_mem (List.mem_append_right _ (.head _))
    rw [List.length_cons, ← Nat.add_assoc, List.cons_append,
      Components.collectFrom_cons hqnew, hpush]
    refine ih hrest hnodup fun n hn hmem => ?_
    rcases Dict.mem_names_insert.1 hmem with hmem | rfl
    · exact hnew n hn hmem
    · exact hqnodup hn

/-- What is written down before the layers are followed: the views. -/
def viewFragments (defs : Dict Output) (own : Layer) (ancestors : List Layer) : Dict Json :=
  .ofList (Dict.mapValues (fun o => (doc defs o).fragment)
    (viewStacks defs own ancestors).reverse)

theorem viewFragments_eq (h : Declarable own.views) : viewFragments defs own ancestors =
    Dict.mapValues (fun o => (doc defs o).fragment) (viewStacks defs own ancestors).reverse := by
  refine Dict.extend_of_nodup ?_
  rw [List.nil_append, Dict.names_mapValues, Dict.names, List.map_reverse, List.nodup_reverse]
  exact (List.nodup_cons.1 (nodup_heads defs ancestors h)).2

theorem names_viewFragments (h : Declarable own.views) :
    (viewFragments defs own ancestors).names =
      (own.views.map fun e => own.name ++ "." ++ e.1).reverse := by
  rw [viewFragments_eq h, Dict.names_mapValues, Dict.names, List.map_reverse,
    ← names_viewStacks defs own ancestors]
  rfl

theorem own_notMem_viewFragments (h : Declarable own.views) :
    own.name ∉ (viewFragments defs own ancestors).names := by
  have hnew := (List.nodup_cons.1 (nodup_heads defs ancestors h)).1
  rw [names_viewFragments h, List.mem_reverse, ← names_viewStacks defs own ancestors]
  exact hnew

/-- A stack refers to each stack below it. -/
theorem length_le_referenceCount (defs : Dict Output) (top : Layer) (below : List Layer) :
    below.length ≤ (stacked defs top below).referenceCount := by
  induction below generalizing top with
  | nil => exact Nat.zero_le _
  | cons l below ih =>
    have hbelow := ih l
    simp only [stacked, referenceCount, List.length_cons]
    omega

/-- The steps that are granted suffice: one for each view, one for the record, and one for each
ancestor. -/
theorem Layered.exists_componentBound {shapes : Dict Output}
    (h : Layered defs own ancestors s shapes) : ∃ steps, ancestors.length ≤ steps ∧
      componentBound defs [doc defs s.output] = steps + 1 + own.views.length := by
  have hown := length_le_referenceCount defs own ancestors
  have hviews : own.views.length ≤ total (fun e => e.2.referenceCount + 1)
      (viewStacks defs own ancestors) := by
    rw [← length_viewStacks defs own ancestors]
    exact length_le_total fun _ _ => Nat.succ_le_succ (Nat.zero_le _)
  refine ⟨componentBound defs [doc defs s.output] - 1 - own.views.length, ?_, ?_⟩ <;>
  · simp only [componentBound, total, h.found_output, heads]
    omega

/-- **The components of a record**: those of its views (`viewFragments`), and those of the layers
that are `followed` from the record on. -/
theorem Layered.components_eq {shapes : Dict Output} (h : Layered defs own ancestors s shapes)
    (hplain : ∀ l ∈ own :: ancestors, l.Plain defs) :
    components defs [doc defs s.output] =
      (followed defs (viewFragments defs own ancestors) (own :: ancestors)).sortByName := by
  let views := (viewStacks defs own ancestors).reverse
  have hnodup : (Dict.names (heads defs own ancestors ++ [])).Nodup :=
    (List.append_nil _).symm ▸ nodup_heads defs ancestors h.declarable
  have hpush : Components.push [] ([doc defs s.output].flatMap Doc.found) =
      views ++ [(own.name, stacked defs own ancestors)] := by
    rw [List.flatMap_singleton, h.found_output, Components.push_of_nodup hnodup, List.append_nil,
      heads,
      List.reverse_cons]
  obtain ⟨steps, hsteps, hbound⟩ := h.exists_componentBound
  have hlength : own.views.length = views.length := by
    rw [List.length_reverse, length_viewStacks]
  have hmention : ∀ q ∈ views,
      (doc defs q.2).found = [(own.name, stacked defs own ancestors)] := by
    intro q hq
    obtain ⟨e, he, rfl⟩ := List.mem_map.1 (List.mem_reverse.1 hq)
    exact found_stacked ((hplain own (.head _)).viewLayer he) (own :: ancestors)
  have hnames : (Dict.names (views ++ [(own.name, stacked defs own ancestors)])).Nodup := by
    rw [← List.reverse_cons, Dict.names, List.map_reverse, List.nodup_reverse]
    exact nodup_heads defs ancestors h.declarable
  have hcollect : Components.collect (m := Id) (fun o => pure (doc defs o))
      (componentBound defs [doc defs s.output]) [doc defs s.output] =
        some (followed defs (viewFragments defs own ancestors) (own :: ancestors)).sortByName := by
    rw [Components.collect_eq, hpush, hbound, hlength,
      collectFrom_views hmention hnames (fun _ _ => List.not_mem_nil)]
    exact congrArg (Option.map Dict.sortByName) (collectFrom_followed hplain
      (own_notMem_viewFragments h.declarable) hsteps)
  exact congrArg (fun all => all.getD []) hcollect

/-! ## What is listed -/

variable {n : String} {f : Json} {layers : List Layer}

/-- What is written down stays. -/
theorem get?_followed_of_some (h : finished.get? n = some f) (layers : List Layer) :
    (followed defs finished layers).get? n = some f := by
  induction layers generalizing finished with
  | nil => exact h
  | cons l below ih =>
    by_cases hl : l.name ∈ finished.names
    · rwa [followed, if_pos (Dict.contains_iff.2 hl)]
    · have hne : l.name ≠ n := by
        rintro rfl
        exact hl (Dict.contains_iff.1 (Option.isSome_iff_exists.2 ⟨f, h⟩))
      rw [followed_of_notMem hl]
      exact ih (by rw [Dict.get?_insert, if_neg hne, h])

/-- The first layer is written down, unless its name is there. -/
theorem get?_followed_head (h : top.name ∉ finished.names) (below : List Layer) :
    (followed defs finished (top :: below)).get? top.name =
      some (doc defs (stacked defs top below)).fragment := by
  rw [followed_of_notMem h]
  exact get?_followed_of_some (by rw [Dict.get?_insert, if_pos rfl]) below

theorem head_mem_followed (finished : Dict Json) (top : Layer) (below : List Layer) :
    top.name ∈ (followed defs finished (top :: below)).names := by
  by_cases h : top.name ∈ finished.names
  · rwa [followed, if_pos (Dict.contains_iff.2 h)]
  · exact Dict.contains_iff.1 (Option.isSome_iff_exists.2 ⟨_, get?_followed_head h below⟩)

theorem names_insert_append (h : top.name ∉ finished.names) (f : Json) (below : List Layer) :
    (finished.insert top.name f).names ++ below.map Layer.name =
      finished.names ++ (top :: below).map Layer.name := by
  rw [Dict.insert_of_notMem h, Dict.names, List.map_append, List.append_assoc]
  rfl

/-- Where the names are distinct, every layer is written down. -/
theorem get?_followed (h : (finished.names ++ layers.map Layer.name).Nodup) :
    ∀ e ∈ lineage defs layers,
      (followed defs finished layers).get? e.1 = some (doc defs e.2).fragment := by
  induction layers generalizing finished with
  | nil => exact nofun
  | cons l below ih =>
    have hl : l.name ∉ finished.names := fun hmem =>
      List.disjoint_of_nodup_append h hmem (.head _)
    refine List.forall_mem_cons.2 ⟨get?_followed_head hl below, ?_⟩
    rw [followed_of_notMem hl]
    exact ih (names_insert_append hl _ below ▸ h)

/-- Where the names are not distinct, each layer that is written down lies over another one, whose
name is written down. -/
theorem exists_below_of_not_nodup (hfinished : finished.names.Nodup)
    (h : ¬(finished.names ++ layers.map Layer.name).Nodup)
    (hf : (followed defs finished layers).get? n = some f) : finished.get? n = some f ∨
      ∃ top l below, f = (doc defs (stacked defs top (l :: below))).fragment ∧
        l.name ∈ (followed defs finished layers).names := by
  induction layers generalizing finished with
  | nil => exact Or.inl hf
  | cons top below ih =>
    by_cases htop : top.name ∈ finished.names
    · rw [followed, if_pos (Dict.contains_iff.2 htop)] at hf
      exact Or.inl hf
    · rw [← names_insert_append htop (doc defs (stacked defs top below)).fragment below] at h
      have hinsert := Dict.nodup_names_insert hfinished top.name
        (doc defs (stacked defs top below)).fragment
      rw [followed_of_notMem htop] at hf ⊢
      rcases ih hinsert h hf with hf | hbelow
      · rw [Dict.get?_insert] at hf
        split at hf
        · obtain rfl := Option.some.inj hf
          cases below with
          | nil => exact absurd (by simpa using hinsert) h
          | cons l below =>
            exact Or.inr ⟨top, l, below, rfl, head_mem_followed _ l below⟩
        · exact Or.inl hf
      · exact Or.inr hbelow

section Listed

variable {shapes : Dict Output} (h : Layered defs own ancestors s shapes)
  (hplain : ∀ l ∈ own :: ancestors, l.Plain defs)

include h hplain

theorem Layered.get?_components (n : String) : (components defs [doc defs s.output]).get? n =
    (followed defs (viewFragments defs own ancestors) (own :: ancestors)).get? n := by
  rw [h.components_eq hplain, Dict.get?_sortByName]

/-- **A record and its views are listed**, documented as they are: each of `heads` under its
name. -/
theorem Layered.get?_heads : ∀ e ∈ heads defs own ancestors,
    (components defs [doc defs s.output]).get? e.1 = some (doc defs e.2).fragment := by
  refine List.forall_mem_cons.2 ⟨?_, fun e he => ?_⟩
  · rw [h.get?_components hplain]
    exact get?_followed_head (own_notMem_viewFragments h.declarable) ancestors
  · rw [h.get?_components hplain]
    refine get?_followed_of_some ?_ _
    have hnodup := (List.nodup_cons.1 (nodup_heads defs ancestors h.declarable)).2
    rw [viewFragments_eq h.declarable, Dict.get?_mapValues,
      Dict.get?_of_perm _ (List.reverse_perm _), (Dict.get?_eq_some_iff hnodup).2 he]
    · rfl
    · rw [Dict.names, List.map_reverse, List.nodup_reverse]
      exact hnodup

omit hplain in
theorem Layered.nodup_iff :
    ((viewFragments defs own ancestors).names ++ (own :: ancestors).map Layer.name).Nodup ↔
      (componentNames own ancestors).Nodup := by
  rw [names_viewFragments h.declarable, componentNames]
  exact ((List.reverse_perm _).append_right _).nodup_iff

/-- **Where the names are distinct, the ancestors are listed**, documented as they are: each of the
`lineage` under its name. -/
theorem Layered.get?_lineage (hnames : (componentNames own ancestors).Nodup) :
    ∀ e ∈ lineage defs (own :: ancestors),
      (components defs [doc defs s.output]).get? e.1 = some (doc defs e.2).fragment := by
  intro e he
  rw [h.get?_components hplain]
  exact get?_followed (h.nodup_iff.2 hnames) e he

/-- **Where the names are not distinct, the components refer to one another in a circle**, which no
value satisfies (`Fragment.not_satisfies_of_circular`). -/
theorem Layered.circular (hnames : ¬(componentNames own ancestors).Nodup) :
    Fragment.Circular (components defs [doc defs s.output]) fun f => ∃ n,
      (components defs [doc defs s.output]).get? n = some f ∨
        n ∈ (components defs [doc defs s.output]).names ∧ f = Fragment.reference n := by
  have hfragment : ∀ (top l : Layer) (below : List Layer), ∃ fs,
      (doc defs (stacked defs top (l :: below))).fragment = .object [("allOf", .array fs)] ∧
        Fragment.reference l.name ∈ fs := by
    intro top l below
    rw [stacked, doc_merge, doc_referenced]
    exact ⟨_, rfl, .head _⟩
  have hmem : ∀ {n}, n ∈ (components defs [doc defs s.output]).names ↔
      n ∈ (followed defs (viewFragments defs own ancestors) (own :: ancestors)).names := by
    intro n
    rw [h.components_eq hplain, Dict.mem_names_sortByName]
  rintro f ⟨n, hf | ⟨hn, rfl⟩⟩
  · obtain ⟨top, l, below, rfl, hl⟩ : ∃ top l below,
        f = (doc defs (stacked defs top (l :: below))).fragment ∧
          l.name ∈ (components defs [doc defs s.output]).names := by
      have hnodup : (viewFragments defs own ancestors).names.Nodup := Dict.nodup_names_ofList _
      rw [h.get?_components hplain] at hf
      rcases exists_below_of_not_nodup hnodup (h.nodup_iff.not.2 hnames) hf with
        hview | ⟨top, l, below, rfl, hl⟩
      · rw [viewFragments_eq h.declarable, Dict.get?_mapValues, Option.map_eq_some_iff] at hview
        obtain ⟨o, ho, rfl⟩ := hview
        obtain ⟨e, -, heq⟩ := List.mem_map.1 (List.mem_reverse.1 (Dict.mem_of_get? ho))
        obtain ⟨-, rfl⟩ := Prod.mk.inj heq
        exact ⟨_, own, ancestors, rfl, hmem.2 (head_mem_followed _ own ancestors)⟩
      · exact ⟨top, l, below, rfl, hmem.2 hl⟩
    obtain ⟨fs, hfs, hreference⟩ := hfragment top l below
    exact Or.inr ⟨fs, hfs, _, hreference, l.name, Or.inr ⟨hl, rfl⟩⟩
  · exact Or.inl ⟨n, rfl, fun g hg => ⟨n, Or.inl hg⟩⟩

end Listed

end OutputStruct

end JsonShape
