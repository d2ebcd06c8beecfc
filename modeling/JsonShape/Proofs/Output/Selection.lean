import JsonShape.Proofs.Output.Build
import JsonShape.Proofs.Output.Components
import JsonShape.Proofs.Output.Limit

/-!
# Selecting a view and requesting it

A view is either selected, which makes an output that has no views any more, or requested when a
value is written. Both lead to the same result, for records and blueprints and for everything that
is wrapped around them: lists, optional and mapped outputs keep their wrapping around the selected
view, and the others give it up.

* `Selectable`: records and blueprints offer views that have no views themselves.
* `Wrapped`: what is made of an output by wrapping. The definitions that are looked up on the way to
  the inside need not be looked up twice (`Wrapped.exists_nodup`), so that the limit for the lookups
  is enough.
* `view_commutes`: a selected view is written like the whole when the view is requested.
-/

namespace JsonShape

namespace OutputStruct

variable {defs : Dict Output} {s : OutputStruct}

/-- A record that is built, and so are all that it inherits from. -/
inductive Built (defs : Dict Output) : OutputStruct → Prop
  | mk {name : String} {parent : Option OutputStruct} {fields : List Field}
      {views : List (String × List Field)} {s : OutputStruct}
      (hparent : ∀ p, parent = some p → Built defs p)
      (h : build defs name parent fields views = .ok s) : Built defs s

/-- The default view of a record is written in one way. -/
theorem Built.unviewed_base (h : Built defs s) : s.base.Unviewed := by
  induction h with
  | @mk name parent fields views s _ h ih =>
    obtain ⟨-, -, -, hown, hinherited, hbase, -⟩ := build_eq_ok.1 h
    have hobject : s.own.Unviewed := hown ▸ Output.unviewed_object _
    have hall : s.inherited.Unviewed := by
      rw [hinherited]
      cases parent with
      | none => exact hobject
      | some p => exact (ih p rfl).merge hobject
    rw [hbase]
    exact hall.referenced name

/-- A record without views of its own offers none. -/
theorem Built.viewNamesAt_base (h : Built defs s) (limit : Nat) :
    Output.viewNamesAt defs limit s.base = [] := by
  obtain @⟨name, parent, fields, views, s, -, h⟩ := h
  obtain ⟨-, -, -, hown, hinherited, hbase, -⟩ := build_eq_ok.1 h
  rw [hbase, hinherited, hown]
  cases limit <;> cases parent <;> rfl

/-- A record is its default view, or a choice among views that have no views themselves. -/
theorem Built.output_cases (h : Built defs s) : s.output = s.base ∨
    ∃ shapes, s.output = .viewed [] s.base shapes ∧ ∀ e ∈ shapes, e.2.Unviewed := by
  have hunviewed := h.unviewed_base
  obtain @⟨_, _, _, _, _, -, h⟩ := h
  obtain ⟨-, -, -, -, -, -, shapes, hshapes, houtput⟩ := build_eq_ok.1 h
  cases hempty : shapes.isEmpty with
  | true => exact Or.inl (by rw [houtput, hempty, if_pos rfl])
  | false =>
    refine Or.inr ⟨shapes, by rw [houtput, hempty, if_neg Bool.false_ne_true], ?_⟩
    refine hshapes.forall_mem fun _ _ _ ho => ?_
    obtain ⟨-, rfl⟩ := viewShape_eq_ok.1 ho
    exact (hunviewed.merge (Output.unviewed_object _)).referenced _

end OutputStruct

namespace Output

variable {defs : Dict Output} {core x base : Output} {views : Dict Output} {name : String}

/-! ## Outputs with views -/

/-- The outputs that offer views: those of a record that is `Built`, and of a blueprint. -/
inductive Selectable (defs : Dict Output) : Output → Prop
  | record {s : OutputStruct} (h : s.Built defs) : Selectable defs s.output
  | blueprint {name : String} {fields : List Field} {views : List (String × List FieldEdit)}
      {b : Blueprint} (h : Blueprint.build defs name fields views = .ok b) :
      Selectable defs b.output

/-- The view `name` of `core` is `view`, one that has no views, and that is written if it is
requested. -/
structure Offers (defs : Dict Output) (core : Output) (name : String) (view : Output) : Prop where
  unviewed : view.Unviewed
  alike : Alike core (some name) view (some name)
  selected : ∀ limit, viewAt defs limit core name = some view

theorem chosen_eq_of_mem (h : name ∈ baseView :: Dict.names views) :
    (if name = baseView then some base else Dict.get? views name) =
      some (chosen base ((baseView, base) :: views) (some name)) := by
  rw [chosen_cons_base, chosen_some]
  split
  · rfl
  · next hname =>
    obtain ⟨o, ho⟩ := Dict.exists_get? ((List.mem_cons.1 h).resolve_left hname)
    rw [ho, Option.getD_some]

/-- Every view that is offered can be selected. -/
theorem Selectable.exists_offers (h : Selectable defs core) (limit : Nat)
    (hname : name ∈ viewNamesAt defs limit core) : ∃ view, Offers defs core name view := by
  cases h with
  | @record s h =>
    rcases h.output_cases with houtput | ⟨shapes, houtput, hviews⟩
    · rw [houtput, h.viewNamesAt_base] at hname
      exact absurd hname List.not_mem_nil
    · rw [houtput, viewNamesAt_viewed, mem_insertNames] at hname
      rw [houtput]
      refine ⟨_, ?_, alike_viewed .., fun limit => ?_⟩
      · have hbase := h.unviewed_base
        exact chosen_induction hbase (List.forall_mem_cons.2 ⟨hbase, hviews⟩) _
      · rw [viewAt_viewed]
        exact chosen_eq_of_mem (hname.resolve_right List.not_mem_nil)
  | @blueprint _ _ _ b h =>
    obtain ⟨-, hdeclarable, -, hbase, hshapes⟩ := Blueprint.build_eq_ok.1 h
    have hchosen : chosen b.base ((baseView, b.base) :: b.views) (some name) =
        chosen b.base b.views (some name) :=
      chosen_cons_base_of_notMem (hshapes.names ▸ hdeclarable.1) _
    rw [Blueprint.output, viewNamesAt_chain, mem_insertNames] at hname
    refine ⟨_, ?_, alike_chain .., fun limit => ?_⟩
    · have hviews : ∀ e ∈ b.views, e.2.Unviewed := hshapes.forall_mem fun _ _ _ ho => by
        obtain ⟨_, -, -, rfl⟩ := Blueprint.viewShape_eq_ok.1 ho
        exact (unviewed_object _).referenced _
      exact chosen_induction (hbase ▸ (unviewed_object _).referenced _) hviews _
    · rw [Blueprint.output, viewAt_chain, ← hchosen]
      exact chosen_eq_of_mem (hname.resolve_right List.not_mem_nil)

/-! ## Wrapping -/

/-- What is made of `core` by wrapping it, and the names of the definitions that are looked up on
the way from the outside to it. -/
inductive Wrapped (defs : Dict Output) (core : Output) : List String → Output → Prop
  | core : Wrapped defs core [] core
  | list {deferred : List String} {x : Output} (h : Wrapped defs core deferred x) :
      Wrapped defs core deferred (.list x)
  | optional {deferred : List String} {x : Output} (h : Wrapped defs core deferred x) :
      Wrapped defs core deferred (.optional x)
  | viaMap {deferred : List String} {x : Output} (h : Wrapped defs core deferred x)
      (f : Json → Json) : Wrapped defs core deferred (.viaMap x f)
  | described {deferred : List String} {x : Output} (h : Wrapped defs core deferred x)
      (text : String) : Wrapped defs core deferred (.described x text)
  | referenced {deferred : List String} {x : Output} (h : Wrapped defs core deferred x)
      (name : String) : Wrapped defs core deferred (.referenced x name)
  | defer {deferred : List String} {x : Output} {name : String} (hget : defs.get? name = some x)
      (h : Wrapped defs core deferred x) : Wrapped defs core (name :: deferred) (.defer name false)

variable {deferred : List String}

namespace Wrapped

/-! ### Definitions on the way -/

theorem subset_names (h : Wrapped defs core deferred x) : deferred ⊆ defs.names := by
  induction h with
  | core => exact List.nil_subset _
  | list _ ih | optional _ ih | viaMap _ _ ih | described _ _ ih | referenced _ _ ih => exact ih
  | @defer _ _ name hget _ ih =>
    refine List.cons_subset.2 ⟨?_, ih⟩
    exact List.mem_map_of_mem (f := Prod.fst) (Dict.mem_of_get? hget)

/-- What is left to unwrap after a definition was looked up. -/
theorem of_append {before after : List String}
    (h : Wrapped defs core (before ++ name :: after) x) :
    ∃ q, defs.get? name = some q ∧ Wrapped defs core after q := by
  generalize hdeferred : before ++ name :: after = deferred at h
  induction h generalizing before with
  | core => exact absurd hdeferred (List.append_ne_nil_of_right_ne_nil _ (List.cons_ne_nil _ _))
  | list _ ih | optional _ ih | viaMap _ _ ih | described _ _ ih | referenced _ _ ih =>
    exact ih hdeferred
  | defer hget h ih =>
    cases before with
    | nil =>
      obtain ⟨rfl, rfl⟩ := List.cons.inj hdeferred
      exact ⟨_, hget, h⟩
    | cons _ before => exact ih (List.cons.inj hdeferred).2

/-- **No definition need be looked up twice.** Where it is, the wrapping between the two lookups is
left out, which shortens `deferred`. -/
theorem exists_nodup (h : Wrapped defs core deferred x) :
    ∃ deferred', Wrapped defs core deferred' x ∧ deferred'.Nodup := by
  induction h with
  | core => exact ⟨[], .core, List.nodup_nil⟩
  | list _ ih => exact ih.imp fun _ h => ⟨h.1.list, h.2⟩
  | optional _ ih => exact ih.imp fun _ h => ⟨h.1.optional, h.2⟩
  | viaMap _ f ih => exact ih.imp fun _ h => ⟨h.1.viaMap f, h.2⟩
  | described _ text ih => exact ih.imp fun _ h => ⟨h.1.described text, h.2⟩
  | referenced _ name ih => exact ih.imp fun _ h => ⟨h.1.referenced name, h.2⟩
  | @defer _ x name hget _ ih =>
    obtain ⟨deferred', hwrapped, hnodup⟩ := ih
    by_cases hmem : name ∈ deferred'
    · obtain ⟨before, after, rfl⟩ := List.append_of_mem hmem
      obtain ⟨q, hq, hwrapped⟩ := hwrapped.of_append
      exact ⟨_, .defer hq hwrapped, (List.nodup_append.1 hnodup).2.1⟩
    · exact ⟨_, .defer hget hwrapped, List.nodup_cons.2 ⟨hmem, hnodup⟩⟩

/-- The lookups stay within the limit for them. -/
theorem exists_lookups (h : Wrapped defs core deferred x) :
    ∃ deferred', Wrapped defs core deferred' x ∧ deferred'.length ≤ lookupLimit defs := by
  obtain ⟨deferred', hwrapped, hnodup⟩ := h.exists_nodup
  have hlength := (hnodup.subperm hwrapped.subset_names).length_le
  have hnames : defs.names.length = defs.length := List.length_map _
  exact ⟨deferred', hwrapped, by rw [lookupLimit]; omega⟩

end Wrapped

/-! ### Views through the wrapping -/

/-- The names of the views of a definition, looked up within a limit. -/
def viewNamesLookup (defs : Dict Output) (limit : Nat) : (name : String) → (base : Bool) →
    List String :=
  fun name base => viewNamesAt defs limit (.defer name base)

theorem viewNamesAt_eq (limit : Nat) (o : Output) :
    viewNamesAt defs limit o = viewNamesWith (viewNamesLookup defs limit) o := by
  cases limit <;> rfl

theorem resolve?_whole (h : defs.get? name = some x) : resolve? defs name false = some x := by
  rw [resolve?, h, Option.map_some, if_neg Bool.false_ne_true]

/-- A definition selects a view after one lookup more. -/
theorem viewAt_defer {n : String} (hget : defs.get? n = some x) (limit : Nat) (name : String) :
    viewAt defs (limit + 1) (.defer n false) name = viewAt defs limit x name := by
  rw [viewAt_eq, viewWith, viewLookup_succ, hget, Option.bind_some, if_neg Bool.false_ne_true]

/-- After `lookups` lookups more, `x` is written under the view `name` as `s` under any. -/
structure Shifted (defs : Dict Output) (lookups : Nat) (x : Output) (name : String) (s : Output) :
    Prop where
  call : ∀ limit view v, callWith (callLookup defs limit) s view v =
    callWith (callLookup defs (limit + lookups)) x (some name) v
  report : ∀ limit view v, reportWith (reportLookup defs limit) s view v =
    reportWith (reportLookup defs (limit + lookups)) x (some name) v

section Shifted

variable {lookups : Nat} {s : Output}

theorem Shifted.list (h : Shifted defs lookups x name s) :
    Shifted defs lookups (.list x) name (.list s) := by
  constructor
  · intro limit view v
    cases v with
    | array xs =>
      have hitem : callWith (callLookup defs limit) s view =
          callWith (callLookup defs (limit + lookups)) x (some name) := funext (h.call limit view)
      rw [callWith, callWith, hitem]
    | _ => rfl
  · intro limit view v
    cases v with
    | array xs =>
      have hitem : reportWith (reportLookup defs limit) s view =
          reportWith (reportLookup defs (limit + lookups)) x (some name) :=
        funext (h.report limit view)
      rw [reportWith, reportWith, hitem]
    | _ => rfl

theorem Shifted.optional (h : Shifted defs lookups x name s) :
    Shifted defs lookups (.optional x) name (.optional s) := by
  constructor
  · intro limit view v
    cases v with
    | null => rfl
    | _ => exact h.call limit view _
  · intro limit view v
    cases v with
    | null => rfl
    | _ => exact h.report limit view _

theorem Shifted.viaMap (h : Shifted defs lookups x name s) (f : Json → Json) :
    Shifted defs lookups (.viaMap x f) name (.viaMap s f) :=
  ⟨fun limit view v => h.call limit view (f v), fun limit view v => h.report limit view (f v)⟩

theorem Shifted.described (h : Shifted defs lookups x name s) (text : String) :
    Shifted defs lookups (.described x text) name s :=
  ⟨h.call, h.report⟩

theorem Shifted.referenced (h : Shifted defs lookups x name s) (component : String) :
    Shifted defs lookups (.referenced x component) name s :=
  ⟨h.call, h.report⟩

theorem Shifted.defer {n : String} (hget : defs.get? n = some x)
    (h : Shifted defs lookups x name s) : Shifted defs (lookups + 1) (.defer n false) name s := by
  constructor
  · intro limit view v
    rw [h.call, ← Nat.add_assoc, callWith, callLookup_succ, resolve?_whole hget, Option.bind_some,
      callAt_eq]
  · intro limit view v
    rw [h.report, ← Nat.add_assoc, reportWith, reportLookup_succ, resolve?_whole hget,
      Option.bind_some, reportAt_eq]

end Shifted

namespace Wrapped

/-- Wrapping adds no views. -/
theorem viewNamesAt_add (h : Wrapped defs core deferred x) (limit : Nat) :
    viewNamesAt defs (limit + deferred.length) x = viewNamesAt defs limit core := by
  rw [viewNamesAt_eq]
  induction h with
  | core => exact (viewNamesAt_eq limit core).symm
  | list _ ih | optional _ ih | viaMap _ _ ih | described _ _ ih | referenced _ _ ih => exact ih
  | @defer deferred x n hget _ ih =>
    show viewNamesAt defs (limit + deferred.length + 1) (.defer n false) = _
    rw [← ih, ← viewNamesAt_eq, viewNamesAt, viewNamesWith, resolve?_whole hget]

/-- **Selecting through the wrapping.** The selected view `s` is wrapped like `x`, but for what
writes nothing of its own. -/
theorem exists_shifted {view : Output} (hview : Offers defs core name view)
    (h : Wrapped defs core deferred x) :
    ∃ s, (∀ limit, viewAt defs (limit + deferred.length) x name = some s) ∧
      Shifted defs deferred.length x name s := by
  induction h with
  | core =>
    have hcore := fun view' => (hview.unviewed view' (some name)).trans hview.alike.symm
    exact ⟨view, hview.selected, fun _ view' => (hcore view').call _,
      fun _ view' => (hcore view').report _⟩
  | list _ ih =>
    obtain ⟨s, hselected, hshifted⟩ := ih
    exact ⟨.list s, fun limit => by rw [viewAt_list, hselected, Option.map_some], hshifted.list⟩
  | optional _ ih =>
    obtain ⟨s, hselected, hshifted⟩ := ih
    refine ⟨.optional s, fun limit => ?_, hshifted.optional⟩
    rw [viewAt_optional, hselected, Option.map_some]
  | viaMap _ f ih =>
    obtain ⟨s, hselected, hshifted⟩ := ih
    refine ⟨.viaMap s f, fun limit => ?_, hshifted.viaMap f⟩
    rw [viewAt_viaMap, hselected, Option.map_some]
  | described _ text ih =>
    obtain ⟨s, hselected, hshifted⟩ := ih
    exact ⟨s, fun limit => by rw [viewAt_described, hselected], hshifted.described text⟩
  | referenced _ component ih =>
    obtain ⟨s, hselected, hshifted⟩ := ih
    exact ⟨s, fun limit => by rw [viewAt_referenced, hselected], hshifted.referenced component⟩
  | defer hget _ ih =>
    obtain ⟨s, hselected, hshifted⟩ := ih
    exact ⟨s, fun limit => (viewAt_defer hget _ _).trans (hselected limit), hshifted.defer hget⟩

end Wrapped

/-! ## Without a limit -/

section Unlimited

variable {lookups : Nat} {s : Output} {view : Option String} {v : Json}

theorem Shifted.writes_iff (h : Shifted defs lookups x name s) {w : Json} :
    Writes defs s view v w ↔ Writes defs x (some name) v w := by
  constructor
  · rintro ⟨limit, hw⟩
    rw [callAt_eq, h.call, ← callAt_eq] at hw
    exact ⟨_, hw⟩
  · rintro ⟨limit, hw⟩
    have hw' := callAt_le (Nat.le_add_right limit lookups) _ _ _ _ hw
    rw [callAt_eq, ← h.call, ← callAt_eq] at hw'
    exact ⟨_, hw'⟩

theorem Shifted.reports_iff (h : Shifted defs lookups x name s) {r : Checked} :
    Reports defs s view v r ↔ Reports defs x (some name) v r := by
  constructor
  · rintro ⟨limit, hr⟩
    rw [reportAt_eq, h.report, ← reportAt_eq] at hr
    exact ⟨_, hr⟩
  · rintro ⟨limit, hr⟩
    have hr' := reportAt_le (Nat.le_add_right limit lookups) _ _ _ _ hr
    rw [reportAt_eq, ← h.report, ← reportAt_eq] at hr'
    exact ⟨_, hr'⟩

end Unlimited

/-- A record selects the views that it offers like its output does. -/
theorem view_record {r : OutputStruct} (h : r.Built defs) (hname : name ∈ viewNames defs r.output) :
    r.view defs name = view defs r.output name := by
  rw [OutputStruct.view, OutputStruct.viewOf?, view]
  by_cases hbase : name = baseView
  · rcases h.output_cases with houtput | ⟨shapes, houtput, -⟩
    · rw [houtput, viewNames, h.viewNamesAt_base] at hname
      exact absurd hname List.not_mem_nil
    · rw [houtput, viewOf?, viewAt_viewed, if_pos hbase, if_pos hbase]
  · cases viewOf? defs r.output name <;> simp only [if_neg hbase]

/-- **Selecting a view and requesting it are the same.** Every view `name` that a wrapped record or
blueprint `x` offers can be selected, and what is selected writes and reports under every view what
`x` does under `name`; a record selects the same. -/
theorem view_commutes (hcore : Selectable defs core) (hx : Wrapped defs core deferred x)
    (hname : name ∈ viewNames defs x) :
    ∃ s, view defs x name = .ok s ∧
      (∀ record : OutputStruct, record.Built defs → record.output = x →
        record.view defs name = .ok s) ∧
      ∀ requested v,
        (∀ w, Writes defs s requested v w ↔ Writes defs x (some name) v w) ∧
          ∀ r, Reports defs s requested v r ↔ Reports defs x (some name) v r := by
  obtain ⟨deferred', hwrapped, hlength⟩ := hx.exists_lookups
  obtain ⟨limit, hlimit⟩ := Nat.exists_eq_add_of_le' hlength
  have hcorename : name ∈ viewNamesAt defs limit core := by
    rwa [viewNames, hlimit, hwrapped.viewNamesAt_add] at hname
  obtain ⟨q, hq⟩ := hcore.exists_offers limit hcorename
  obtain ⟨s, hselected, hshifted⟩ := hwrapped.exists_shifted hq
  have hview : view defs x name = .ok s := by
    rw [view, viewOf?, hlimit, hselected]
  refine ⟨s, hview, fun record hrecord hrx => ?_, fun requested v => ?_⟩
  · rw [view_record hrecord, hrx, hview]
    rwa [hrx]
  · exact ⟨fun _ => hshifted.writes_iff, fun _ => hshifted.reports_iff⟩

/-- People, who are listed and may be missing, with a view that tells their friends. -/
theorem view_commutes_people :
    let id : Field := ⟨"id", .ready .integer, none, none, true⟩
    let friend : Field := ⟨"friend", .lazy "Person", none, none, false⟩
    let base : Output :=
      .referenced (.object [⟨"id", some (·.getOrNull "id"), .integer, true, none⟩]) "Person"
    let detail : Output := .referenced (.merge base (.object
      [⟨"friend", some (·.getOrNull "friend"), .defer "Person" true, false, none⟩])) "Person.detail"
    let person : Output := .viewed [] base [("detail", detail)]
    let defs : Dict Output := [("Person", person)]
    let people : Output := .list (.optional (.defer "Person" false))
    (∃ r, OutputStruct.build defs "Person" none [id] [("detail", [friend])] = .ok r ∧
        r.output = person) ∧
      "detail" ∈ viewNames defs people ∧
      ∃ s, view defs people "detail" = .ok s ∧
        ∀ requested v w, Writes defs s requested v w ↔ Writes defs people (some "detail") v w := by
  intro id friend base detail person defs people
  have hbuild : OutputStruct.build defs "Person" none [id] [("detail", [friend])] = .ok _ := rfl
  have hrecord : Selectable defs person :=
    .record (@OutputStruct.Built.mk defs "Person" none _ _ _ nofun hbuild)
  have hname : "detail" ∈ viewNames defs people := by decide
  have hdefer : Wrapped defs person ["Person"] (.defer "Person" false) := .defer rfl .core
  obtain ⟨s, hs, -, hwrites⟩ := view_commutes hrecord hdefer.optional.list hname
  exact ⟨⟨_, hbuild, rfl⟩, hname, s, hs, fun requested v => (hwrites requested v).1⟩

end Output

end JsonShape
