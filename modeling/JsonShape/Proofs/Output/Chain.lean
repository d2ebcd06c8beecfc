import JsonShape.Proofs.Output.Build
import JsonShape.Proofs.Output.Limit

/-!
# Views by conditions

A blueprint tests the name of one view after the other. Its decision chain is a nest of conditions:
each one holds a view, and the rest of the chain where the view is not requested. Outside stands the
view that was declared first, and inside the default one.

* `Blueprint.alike_dispatcher`: the conditions choose what a lookup chooses.
* `Blueprint.dispatcher_alike_viewed`: a blueprint selects like an output of the same views.
-/

namespace JsonShape

namespace Output

/-- Views with a default one make an output of several views. -/
theorem exists_of_splitBase {views : Dict Output} (h : baseView ∈ views.names) :
    ∃ earlier base later, ofViews views = .ok (.viewed earlier base later) ∧
      views = earlier ++ (baseView, base) :: later := by
  suffices ∃ earlier base later, splitBase views = some (earlier, base, later) ∧
      views = earlier ++ (baseView, base) :: later by
    obtain ⟨earlier, base, later, hsplit, hviews⟩ := this
    exact ⟨earlier, base, later, by rw [ofViews, hsplit], hviews⟩
  induction views with
  | nil => exact absurd h List.not_mem_nil
  | cons e rest ih =>
    obtain ⟨name, o⟩ := e
    rw [splitBase]
    by_cases hname : name = baseView
    · exact ⟨[], o, rest, if_pos hname, by rw [hname, List.nil_append]⟩
    · rw [Dict.names_cons, List.mem_cons] at h
      obtain ⟨earlier, base, later, hsplit, hrest⟩ := ih (h.resolve_left (Ne.symm hname))
      refine ⟨(name, o) :: earlier, base, later, ?_, by rw [hrest, List.cons_append]⟩
      rw [if_neg hname, hsplit]
      rfl

end Output

namespace Blueprint

open Output

/-- The decision chain of `b`: for each view a condition on its name, and the default view behind
the last one. -/
def dispatcher (b : Blueprint) : Output :=
  b.views.foldr (fun e otherwise => onView e.1 e.2 otherwise) b.base

/-- **Conditions that stand inside one another choose what a lookup chooses**, by induction on the
views. -/
theorem alike_dispatcher (b : Blueprint) (view : Option String) :
    Alike b.dispatcher view (chosen b.base b.views view) view := by
  obtain ⟨_, base, views⟩ := b
  unfold dispatcher
  dsimp only
  induction views with
  | nil => cases view <;> exact Alike.refl _ _
  | cons e rest ih =>
    obtain ⟨name, o⟩ := e
    refine (alike_onView name o _ view).trans ?_
    cases view with
    | none => exact ih
    | some requested =>
      rw [chosen_some, Dict.get?]
      by_cases h : name = requested
      · rw [if_pos (by rw [h]), if_pos h]
        exact Alike.refl _ _
      · rw [if_neg fun heq => h (Option.some.inj heq).symm, if_neg h]
        exact ih

/-- The conditions of `dispatcher` are what the blueprint tests. -/
theorem alike_output (b : Blueprint) (view : Option String) :
    Alike b.dispatcher view b.output view :=
  (b.alike_dispatcher view).trans (alike_chain b.base b.views view).symm

variable {defs : Dict Output} {name : String} {fields : List Field}
  {views : List (String × List FieldEdit)} {b : Blueprint}

/-- The views of a blueprint have names of their own. -/
theorem nodup_names_of_build (h : build defs name fields views = .ok b) :
    (Dict.names ((baseView, b.base) :: b.views)).Nodup := by
  obtain ⟨-, ⟨hbase, hnodup⟩, -, -, hshapes⟩ := build_eq_ok.1 h
  rw [← hshapes.names] at hbase hnodup
  rw [Dict.names_cons, List.nodup_cons]
  exact ⟨hbase, hnodup⟩

section Listed

variable {earlier later : Dict Output} {base : Output}

/-- The views stand in every listing of them, the default one too. -/
theorem get?_of_listed (hnodup : (Dict.names ((baseView, b.base) :: b.views)).Nodup)
    (hperm : (earlier ++ (baseView, base) :: later).Perm ((baseView, b.base) :: b.views)) :
    base = b.base ∧
      ∀ name, name ≠ baseView → Dict.get? (earlier ++ later) name = b.views.get? name := by
  have hrest : ((baseView, base) :: (earlier ++ later)).Perm ((baseView, b.base) :: b.views) :=
    List.perm_middle.symm.trans hperm
  have hget := Dict.get?_of_perm ((hrest.map Prod.fst).nodup_iff.2 hnodup) hrest
  constructor
  · have h := hget baseView
    rw [Dict.get?, if_pos rfl, Dict.get?, if_pos rfl] at h
    exact Option.some.inj h
  · intro name hname
    have h := hget name
    rwa [Dict.get?, if_neg (Ne.symm hname), Dict.get?, if_neg (Ne.symm hname)] at h

theorem alike_listed (hnodup : (Dict.names ((baseView, b.base) :: b.views)).Nodup)
    (hperm : (earlier ++ (baseView, base) :: later).Perm ((baseView, b.base) :: b.views))
    (view : Option String) : Alike (.viewed earlier base later) view b.dispatcher view := by
  obtain ⟨rfl, hget⟩ := get?_of_listed hnodup hperm
  have hchosen : chosen b.base ((baseView, b.base) :: (earlier ++ later)) view =
      chosen b.base b.views view := by
    rw [← chosen_cons_base_of_notMem (List.nodup_cons.1 hnodup).1]
    cases view with
    | none => rfl
    | some name =>
      rw [chosen_cons_base, chosen_cons_base]
      split
      · rfl
      · next h => rw [chosen_some, chosen_some, hget name h]
  have hviewed := alike_viewed earlier b.base later view
  rw [hchosen] at hviewed
  exact hviewed.trans (b.alike_dispatcher view).symm

end Listed

/-- **A blueprint selects like an output of its views**, in whatever order `entries` lists these:
within every limit and under every requested view, `b.dispatcher`, `b.output` and `viewed` write and
report the same, and `b.output` offers the views that `viewed` offers. -/
theorem dispatcher_selects_viewed (h : build defs name fields views = .ok b)
    {entries : Dict Output} (hentries : entries.Perm ((baseView, b.base) :: b.views)) :
    ∃ viewed, ofViews entries = .ok viewed ∧
      (∀ limit view v, callAt defs limit b.dispatcher view v = callAt defs limit viewed view v ∧
        callAt defs limit b.output view v = callAt defs limit viewed view v) ∧
      (∀ limit view v,
        reportAt defs limit b.dispatcher view v = reportAt defs limit viewed view v ∧
          reportAt defs limit b.output view v = reportAt defs limit viewed view v) ∧
      viewNames defs b.output = viewNames defs viewed ∧
      ∀ view, viewOf? defs b.output view = viewOf? defs viewed view := by
  have hnodup := nodup_names_of_build h
  have hnames : entries.names.Perm (Dict.names ((baseView, b.base) :: b.views)) :=
    hentries.map Prod.fst
  obtain ⟨earlier, base, later, hviewed, rfl⟩ := exists_of_splitBase (hnames.mem_iff.2 (.head _))
  have halike := alike_listed hnodup hentries
  refine ⟨_, hviewed, fun limit view v => ?_, fun limit view v => ?_, ?_, fun view => ?_⟩
  · rw [callAt_eq, callAt_eq, callAt_eq, (halike view).call, (b.alike_output view).call]
    exact ⟨rfl, rfl⟩
  · rw [reportAt_eq, reportAt_eq, reportAt_eq, (halike view).report, (b.alike_output view).report]
    exact ⟨rfl, rfl⟩
  · rw [viewNames, viewNames, output, viewNamesAt_chain, viewNamesAt_viewed]
    have hmap : Dict.names (earlier ++ (baseView, base) :: later) =
        Dict.names earlier ++ baseView :: Dict.names later := List.map_append
    exact insertNames_of_perm (hmap ▸ hnames.symm)
  · obtain ⟨rfl, hget⟩ := get?_of_listed hnodup hentries
    rw [viewOf?, viewOf?, output, viewAt_chain, viewAt_viewed]
    split
    · rfl
    · next hview => rw [hget view hview]

/-- A blueprint with two views, and their listing with the default view at the end. -/
theorem dispatcher_selects_viewed_item :
    let id : Field := ⟨"id", .ready .integer, none, none, true⟩
    let note : Field := ⟨"note", .ready (.text none), none, none, false⟩
    let views := [("summary", [.except "note"]), ("strict", [.add { note with required := true }])]
    ∃ b summary strict, build [] "Item" [id, note] views = .ok b ∧
      b.views = [("summary", summary), ("strict", strict)] ∧
      ∃ viewed, ofViews [("strict", strict), ("summary", summary), (baseView, b.base)] =
        .ok viewed ∧ ∀ view v, call [] b.dispatcher view v = call [] viewed view v := by
  intro id note views
  have hbuild : build [] "Item" [id, note] views = .ok _ := rfl
  obtain ⟨viewed, hviewed, hcall, -⟩ :=
    dispatcher_selects_viewed hbuild (List.reverse_perm [_, _, _])
  refine ⟨_, _, _, hbuild, rfl, ?_⟩
  exact ⟨viewed, hviewed, fun view v => (hcall deepest view v).1⟩

end Blueprint

end JsonShape
