import JsonShape.Proofs.Dict
import JsonShape.Proofs.Output.Agreement

/-!
# The view that a value is written in

An output with views hands the value on to one of them, and both ways of writing hand it on to the
same one. So a choice among views is described by the output that is chosen (`chosen`): the view of
the requested name, and otherwise the default view.

* `Alike`: an output under one view is written like an output under another, checked and unchecked.
* `alike_viewed`, `alike_chain`: the outputs with views are written like the chosen one.
* `Unviewed`: an output that is written in one way, whatever view is requested.
-/

namespace JsonShape

namespace Output

variable {o q base : Output} {earlier later views : Dict Output} {view view' : Option String}

/-- Under these views, `o` and `q` are written alike, with checks and without, whatever definitions
mean. -/
structure Alike (o : Output) (view : Option String) (q : Output) (view' : Option String) :
    Prop where
  call : ∀ (unchecked : Caller) v, callWith unchecked o view v = callWith unchecked q view' v
  report : ∀ (checked : Reporter) v, reportWith checked o view v = reportWith checked q view' v

theorem Alike.refl (o : Output) (view : Option String) : Alike o view o view :=
  ⟨fun _ _ => rfl, fun _ _ => rfl⟩

theorem Alike.symm (h : Alike o view q view') : Alike q view' o view :=
  ⟨fun c v => (h.call c v).symm, fun c v => (h.report c v).symm⟩

theorem Alike.trans {o' : Output} {view'' : Option String} (h : Alike o view q view')
    (h' : Alike q view' o' view'') : Alike o view o' view'' :=
  ⟨fun c v => (h.call c v).trans (h'.call c v), fun c v => (h.report c v).trans (h'.report c v)⟩

/-! ## The chosen view -/

/-- The view that is written: the requested one of `views`, and `base` where it is not there. -/
def chosen (base : Output) (views : Dict Output) (view : Option String) : Output :=
  (view.bind views.get?).getD base

theorem chosen_some (base : Output) (views : Dict Output) (name : String) :
    chosen base views (some name) = (views.get? name).getD base := rfl

/-- What holds of the views holds of the chosen one. -/
theorem chosen_induction {P : Output → Prop} (hbase : P base) (hviews : ∀ e ∈ views, P e.2)
    (view : Option String) : P (chosen base views view) := by
  rw [chosen]
  cases hview : view.bind views.get? with
  | none => exact hbase
  | some o =>
    obtain ⟨name, -, ho⟩ := Option.bind_eq_some_iff.1 hview
    exact hviews _ (Dict.mem_of_get? ho)

/-- What holds of an output's views, the default one between the others, holds of the chosen one. -/
theorem chosen_viewed_induction {P : Output → Prop} {earlier later : Dict Output}
    (hearlier : ∀ e ∈ earlier, P e.2) (hbase : P base) (hlater : ∀ e ∈ later, P e.2)
    (view : Option String) : P (chosen base ((baseView, base) :: (earlier ++ later)) view) :=
  chosen_induction hbase
    (List.forall_mem_cons.2 ⟨hbase, List.forall_mem_append.2 ⟨hearlier, hlater⟩⟩) view

/-- The default view may be listed under its name. -/
theorem chosen_cons_base (base : Output) (views : Dict Output) (name : String) :
    chosen base ((baseView, base) :: views) (some name) =
      if name = baseView then base else chosen base views (some name) := by
  rw [chosen_some, chosen_some, Dict.get?]
  by_cases h : name = baseView
  · rw [if_pos h, if_pos h.symm, Option.getD_some]
  · rw [if_neg h, if_neg (Ne.symm h)]

/-- Where it is the only one of that name, listing it changes nothing. -/
theorem chosen_cons_base_of_notMem (h : baseView ∉ views.names) (view : Option String) :
    chosen base ((baseView, base) :: views) view = chosen base views view := by
  cases view with
  | none => rfl
  | some name =>
    rw [chosen_cons_base]
    split
    · next hname => rw [chosen_some, hname, Dict.get?_eq_none_iff.2 h, Option.getD_none]
    · rfl

theorem callView_eq (unchecked : Caller) (views : Dict Output) (name : String)
    (view : Option String) (v : Json) :
    callView unchecked views name view v =
      (views.get? name).map fun o => callWith unchecked o view v := by
  induction views with
  | nil => rfl
  | cons e rest ih =>
    obtain ⟨n, o⟩ := e
    rw [callView, Dict.get?]
    split
    · rfl
    · exact ih

theorem reportView_eq (checked : Reporter) (views : Dict Output) (name : String)
    (view : Option String) (v : Json) :
    reportView checked views name view v =
      (views.get? name).map fun o => reportWith checked o view v := by
  induction views with
  | nil => rfl
  | cons e rest ih =>
    obtain ⟨n, o⟩ := e
    rw [reportView, Dict.get?]
    split
    · rfl
    · exact ih

/-- **Views are chosen by a lookup** (`chosen`), the default view between the others. -/
theorem alike_viewed (earlier : Dict Output) (base : Output) (later : Dict Output)
    (view : Option String) :
    Alike (.viewed earlier base later) view
      (chosen base ((baseView, base) :: (earlier ++ later)) view) view := by
  cases view with
  | none => exact ⟨fun _ _ => by rw [callWith]; rfl, fun _ _ => by rw [reportWith]; rfl⟩
  | some name =>
    rw [chosen_cons_base, chosen_some, Dict.get?_append]
    constructor
    · intro unchecked v
      rw [callWith, callView_eq, callView_eq, Option.getD_some]
      split
      · rfl
      · cases earlier.get? name with
        | some o => rfl
        | none => cases later.get? name <;> rfl
    · intro checked v
      rw [reportWith, reportView_eq, reportView_eq, Option.getD_some]
      split
      · rfl
      · cases earlier.get? name with
        | some o => rfl
        | none => cases later.get? name <;> rfl

/-- **Views that are tested one after the other are chosen by a lookup** (`chosen`). -/
theorem alike_chain (base : Output) (views : Dict Output) (view : Option String) :
    Alike (.chain base views) view (chosen base views view) view := by
  cases view with
  | none => exact ⟨fun _ _ => by rw [callWith]; rfl, fun _ _ => by rw [reportWith]; rfl⟩
  | some name =>
    constructor
    · intro unchecked v
      rw [callWith, callView_eq, chosen_some]
      cases views.get? name <;> rfl
    · intro checked v
      rw [reportWith, reportView_eq, chosen_some]
      cases views.get? name <;> rfl

/-- A condition on the requested view is a test of its name. -/
theorem alike_onView (name : String) (holds otherwise : Output) (view : Option String) :
    Alike (onView name holds otherwise) view (if view = some name then holds else otherwise)
      view := by
  constructor
  · intro unchecked v
    rw [onView, callWith]
    simp only [beq_iff_eq]
    split <;> rfl
  · intro checked v
    rw [onView, reportWith]
    simp only [beq_iff_eq]
    split <;> rfl

/-! ## Views of a shape -/

section Wrapping

variable (defs : Dict Output) (limit : Nat) (x : Output) (name : String)

theorem viewAt_list :
    viewAt defs limit (.list x) name = (viewAt defs limit x name).map .list := by
  cases limit <;> rfl

theorem viewAt_optional :
    viewAt defs limit (.optional x) name = (viewAt defs limit x name).map .optional := by
  cases limit <;> rfl

theorem viewAt_viaMap (f : Json → Json) :
    viewAt defs limit (.viaMap x f) name = (viewAt defs limit x name).map (.viaMap · f) := by
  cases limit <;> rfl

theorem viewAt_described (text : String) :
    viewAt defs limit (.described x text) name = viewAt defs limit x name := by
  cases limit <;> rfl

theorem viewAt_referenced (component : String) :
    viewAt defs limit (.referenced x component) name = viewAt defs limit x name := by
  cases limit <;> rfl

end Wrapping

theorem viewAt_viewed (defs : Dict Output) (limit : Nat) (earlier : Dict Output) (base : Output)
    (later : Dict Output) (name : String) : viewAt defs limit (.viewed earlier base later) name =
      if name = baseView then some base else Dict.get? (earlier ++ later) name := by
  cases limit <;> rfl

theorem viewAt_chain (defs : Dict Output) (limit : Nat) (base : Output) (views : Dict Output)
    (name : String) : viewAt defs limit (.chain base views) name =
      if name = baseView then some base else views.get? name := by
  cases limit <;> rfl

theorem viewNamesAt_viewed (defs : Dict Output) (limit : Nat) (earlier : Dict Output)
    (base : Output) (later : Dict Output) : viewNamesAt defs limit (.viewed earlier base later) =
      insertNames (earlier.names ++ baseView :: later.names) [] := by
  cases limit <;> rfl

theorem viewNamesAt_chain (defs : Dict Output) (limit : Nat) (base : Output)
    (views : Dict Output) :
    viewNamesAt defs limit (.chain base views) = insertNames (baseView :: views.names) [] := by
  cases limit <;> rfl

/-! ## Sorted names -/

section Names

variable {name k : String} {names names' sorted : List String}

theorem mem_insertName : k ∈ insertName name sorted ↔ k = name ∨ k ∈ sorted := by
  induction sorted with
  | nil => exact List.mem_cons
  | cons n rest ih =>
    rw [insertName]
    split
    · exact List.mem_cons
    · split
      · next h => rw [h, List.mem_cons, ← or_assoc, or_self]
      · rw [List.mem_cons, ih, List.mem_cons, or_left_comm]

theorem mem_insertNames : k ∈ insertNames names sorted ↔ k ∈ names ∨ k ∈ sorted := by
  induction names generalizing sorted with
  | nil => exact (or_iff_right List.not_mem_nil).symm
  | cons n rest ih =>
    have hcons : insertNames (n :: rest) sorted = insertNames rest (insertName n sorted) := rfl
    rw [hcons, ih, mem_insertName, List.mem_cons, or_left_comm, or_assoc]

theorem pairwise_lt_insertName (h : sorted.Pairwise (· < ·)) (name : String) :
    (insertName name sorted).Pairwise (· < ·) := by
  induction sorted with
  | nil => exact List.pairwise_singleton _ _
  | cons n rest ih =>
    have ⟨hn, hrest⟩ := List.pairwise_cons.1 h
    rw [insertName]
    split
    · next hlt =>
      refine List.pairwise_cons.2 ⟨fun k hk => ?_, h⟩
      rcases List.mem_cons.1 hk with rfl | hk
      · exact hlt
      · exact lt_trans hlt (hn k hk)
    · next hnlt =>
      split
      · exact h
      · next hne =>
        refine List.pairwise_cons.2 ⟨fun k hk => ?_, ih hrest⟩
        rcases mem_insertName.1 hk with rfl | hk
        · exact lt_of_le_of_ne (not_lt.1 hnlt) (Ne.symm hne)
        · exact hn k hk

theorem pairwise_lt_insertNames (h : sorted.Pairwise (· < ·)) (names : List String) :
    (insertNames names sorted).Pairwise (· < ·) := by
  induction names generalizing sorted with
  | nil => exact h
  | cons n rest ih => exact ih (pairwise_lt_insertName h n)

/-- The order in which names are added does not count. -/
theorem insertNames_of_perm (h : names.Perm names') :
    insertNames names [] = insertNames names' [] := by
  have hlt (names : List String) := pairwise_lt_insertNames List.Pairwise.nil names
  have hnodup (names : List String) : (insertNames names []).Nodup :=
    (hlt names).imp fun h => ne_of_lt h
  have hperm : (insertNames names []).Perm (insertNames names' []) := by
    refine (List.perm_ext_iff_of_nodup (hnodup names) (hnodup names')).2 fun k => ?_
    rw [mem_insertNames, mem_insertNames, h.mem_iff]
  exact hperm.eq_of_pairwise (fun _ _ _ _ hlt hgt => absurd hgt (lt_asymm hlt)) (hlt names)
    (hlt names')

end Names

/-! ## Outputs without views -/

/-- `o` is written in one way, whatever view is requested. -/
def Unviewed (o : Output) : Prop := ∀ view view', Alike o view o view'

theorem unviewed_object (properties : List (Property Output)) : Unviewed (.object properties) :=
  fun _ _ => ⟨fun _ _ => rfl, fun _ _ => rfl⟩

theorem Unviewed.merge {parent child : Output} (hp : parent.Unviewed) (hc : child.Unviewed) :
    (merge parent child).Unviewed := by
  intro view view'
  constructor
  · intro unchecked v
    rw [callWith, callWith, (hp view view').call, (hc view view').call]
  · intro checked v
    rw [reportWith, reportWith, (hp view view').report, (hc view view').report]

theorem Unviewed.referenced (h : o.Unviewed) (name : String) : (referenced o name).Unviewed :=
  fun view view' => ⟨(h view view').call, (h view view').report⟩

end Output

end JsonShape
