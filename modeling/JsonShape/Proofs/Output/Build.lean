import JsonShape.Output.Blueprint
import JsonShape.Output.Struct
import JsonShape.Proofs.Dict
import JsonShape.Proofs.Members

/-!
# When records and blueprints are built

Records and blueprints declare their views in one way: a name is checked against those before it,
and then the shape of the view is made. They differ in the shape only, so that there is one loop
(`declareViews`) and one statement of what it builds (`declareViews_eq_ok`).

* `OutputStruct.build_eq_ok` and `Blueprint.build_eq_ok`: what is built, and from what.
-/

namespace JsonShape

/-- A field list is accepted if no name stands in it twice. -/
theorem Field.checkDistinct_eq_ok {fields : List Field} :
    checkDistinct fields = .ok () ↔ (fields.map name).Nodup := by
  have hnone := @Member.firstRepeated?_eq_none [] (fields.map name)
  unfold checkDistinct
  cases h : Member.firstRepeated? [] (fields.map name) with
  | none => exact iff_of_true rfl (hnone.1 h).1
  | some repeated =>
    refine iff_of_false nofun fun hnodup => ?_
    rw [hnone.2 ⟨hnodup, fun _ _ => List.not_mem_nil⟩] at h
    cases h

/-- A name of a view is accepted if it is not that of the default view and new. -/
theorem checkViewName_eq_ok {earlier : Dict Output} {view : String} :
    checkViewName earlier view = .ok () ↔ view ≠ baseView ∧ view ∉ earlier.names := by
  unfold checkViewName
  split
  · next h => exact iff_of_false nofun fun hne => hne.1 h
  · next h =>
    split
    · next hc => exact iff_of_false nofun fun hnew => hnew.2 (Dict.contains_iff.1 hc)
    · next hc => exact iff_of_true rfl ⟨h, fun hmem => hc (Dict.contains_iff.2 hmem)⟩

/-! ## Views -/

section Views

variable {α : Type} {shape : String → α → Except DefinitionError Output} {built all : Dict Output}
  {views : List (String × α)}

/-- Declares `views` one by one, where `shape` makes the shape of a view from its name and what is
declared with it. -/
def declareViews (shape : String → α → Except DefinitionError Output) :
    (built : Dict Output) → List (String × α) → Except DefinitionError (Dict Output)
  | built, [] => .ok built
  | built, (view, a) :: rest => do
    checkViewName built view
    let o ← shape view a
    declareViews shape (built ++ [(view, o)]) rest

/-- The shapes that `shape` makes for `views`, in their order. -/
def Shapes (shape : String → α → Except DefinitionError Output) (views : List (String × α))
    (shapes : Dict Output) : Prop :=
  List.Forall₂ (fun e s => s.1 = e.1 ∧ shape e.1 e.2 = .ok s.2) views shapes

theorem Shapes.names {shapes : Dict Output} (h : Shapes shape views shapes) :
    shapes.names = Dict.names views :=
  (map_eq_of_forall₂ h fun _ _ hes => hes.1.symm).symm

/-- The shape of a view is the one that was made for it. -/
theorem Shapes.get? {shapes : Dict Output} (h : Shapes shape views shapes) (name : String) :
    (Dict.get? views name = none ∧ shapes.get? name = none) ∨
      ∃ a o, Dict.get? views name = some a ∧ shapes.get? name = some o ∧ shape name a = .ok o := by
  induction h with
  | nil => exact Or.inl ⟨rfl, rfl⟩
  | @cons e s views shapes hes _ ih =>
    obtain ⟨n, a⟩ := e
    obtain ⟨n', o⟩ := s
    obtain ⟨rfl, ho⟩ := hes
    simp only [Dict.get?]
    split
    · next hn => exact Or.inr ⟨a, o, rfl, rfl, hn ▸ ho⟩
    · exact ih

/-- What holds of every shape that can be made holds of those that are. -/
theorem Shapes.forall_mem {shapes : Dict Output} {P : Output → Prop} (h : Shapes shape views shapes)
    (hP : ∀ view a o, shape view a = .ok o → P o) : ∀ e ∈ shapes, P e.2 := by
  induction h with
  | nil => exact fun _ he => absurd he List.not_mem_nil
  | cons hes _ ih => exact List.forall_mem_cons.2 ⟨hP _ _ _ hes.2, ih⟩

/-- Shapes that can be made are made. -/
theorem Shapes.exists_of_forall (h : ∀ e ∈ views, ∃ o, shape e.1 e.2 = .ok o) :
    ∃ shapes, Shapes shape views shapes := by
  induction views with
  | nil => exact ⟨[], .nil⟩
  | cons e rest ih =>
    obtain ⟨⟨o, ho⟩, hrest⟩ := List.forall_mem_cons.1 h
    obtain ⟨shapes, hshapes⟩ := ih hrest
    exact ⟨(e.1, o) :: shapes, .cons ⟨rfl, ho⟩ hshapes⟩

/-- The names of `views` can be declared: none is `baseView`, and none stands twice. -/
def Declarable (views : List (String × α)) : Prop :=
  baseView ∉ Dict.names views ∧ (Dict.names views).Nodup

theorem declarable_cons {name : String} {a : α} : Declarable ((name, a) :: views) ↔
    name ≠ baseView ∧ name ∉ Dict.names views ∧ Declarable views := by
  rw [Declarable, Dict.names_cons, List.mem_cons, not_or, List.nodup_cons, ne_comm, Declarable]
  exact ⟨fun ⟨⟨hne, hbase⟩, hnew, hnodup⟩ => ⟨hne, hnew, hbase, hnodup⟩,
    fun ⟨hne, hnew, hbase, hnodup⟩ => ⟨⟨hne, hbase⟩, hnew, hnodup⟩⟩

theorem declareViews_cons {name : String} {a : α} :
    declareViews shape built ((name, a) :: views) = .ok all ↔
      (name ≠ baseView ∧ name ∉ built.names) ∧
        ∃ o, shape name a = .ok o ∧ declareViews shape (built ++ [(name, o)]) views = .ok all := by
  constructor
  · intro h
    obtain ⟨⟨⟩, hname, h⟩ := Except.bind_eq_ok.1 h
    obtain ⟨o, ho, h⟩ := Except.bind_eq_ok.1 h
    exact ⟨checkViewName_eq_ok.1 hname, o, ho, h⟩
  · rintro ⟨hname, o, ho, h⟩
    exact Except.bind_eq_ok.2 ⟨(), checkViewName_eq_ok.2 hname, Except.bind_eq_ok.2 ⟨o, ho, h⟩⟩

/-- Views are declared after others if their names can be and every shape is made. -/
theorem declareViews_append_eq_ok :
    declareViews shape built views = .ok all ↔
      Declarable views ∧ (∀ name ∈ Dict.names views, name ∉ built.names) ∧
        ∃ shapes, Shapes shape views shapes ∧ all = built ++ shapes := by
  induction views generalizing built with
  | nil =>
    constructor
    · intro h
      exact ⟨⟨List.not_mem_nil, List.nodup_nil⟩, nofun, [], .nil,
        (Except.ok.inj h).symm.trans (List.append_nil built).symm⟩
    · rintro ⟨-, -, shapes, hshapes, rfl⟩
      cases hshapes
      rw [List.append_nil]
      rfl
  | cons e rest ih =>
    obtain ⟨name, a⟩ := e
    have hnames : ∀ o, Dict.names (built ++ [(name, o)]) = built.names ++ [name] := fun o => by
      rw [Dict.names, List.map_append]
      rfl
    rw [declareViews_cons, declarable_cons, Dict.names_cons, List.forall_mem_cons]
    simp only [ih, hnames, List.mem_append, List.mem_singleton, not_or]
    constructor
    · rintro ⟨⟨hbase, hbuilt⟩, o, ho, hrest, hnew, shapes, hshapes, rfl⟩
      refine ⟨⟨hbase, fun hmem => (hnew name hmem).2 rfl, hrest⟩,
        ⟨hbuilt, fun k hk => (hnew k hk).1⟩, (name, o) :: shapes, .cons ⟨rfl, ho⟩ hshapes, ?_⟩
      rw [List.append_assoc, List.singleton_append]
    · rintro ⟨⟨hbase, hname, hrest⟩, ⟨hbuilt, hnew⟩, _, hshapes, rfl⟩
      cases hshapes with
      | @cons _ s _ shapes hs hshapes =>
        obtain ⟨n, o⟩ := s
        obtain ⟨rfl, ho⟩ := hs
        refine ⟨⟨hbase, hbuilt⟩, o, ho, hrest,
          fun k hk => ⟨hnew k hk, fun heq => hname (heq ▸ hk)⟩, shapes, hshapes, ?_⟩
        rw [List.append_assoc, List.singleton_append]

/-- **Views are declared if their names can be and every shape is made**: `all` then has one shape
for each, in their order. -/
theorem declareViews_eq_ok :
    declareViews shape [] views = .ok all ↔ Declarable views ∧ Shapes shape views all := by
  rw [declareViews_append_eq_ok]
  constructor
  · rintro ⟨hviews, -, shapes, hshapes, rfl⟩
    exact ⟨hviews, hshapes⟩
  · rintro ⟨hviews, hshapes⟩
    exact ⟨hviews, fun _ _ => List.not_mem_nil, all, hshapes, rfl⟩

/-- Views are refused for a name that cannot be declared, or for a shape that cannot be made. -/
theorem refused_of_declareViews {err : DefinitionError}
    (h : declareViews shape built views = .error err) :
    err = .reservedView ∨ (∃ view, err = .duplicateView view) ∨
      ∃ e ∈ views, shape e.1 e.2 = .error err := by
  induction views generalizing built with
  | nil => cases h
  | cons e rest ih =>
    rcases Except.bind_eq_error.1 h with hname | ⟨⟨⟩, -, h⟩
    · rw [checkViewName] at hname
      split at hname
      · exact Or.inl (Except.error.inj hname).symm
      · split at hname
        · exact Or.inr (Or.inl ⟨e.1, (Except.error.inj hname).symm⟩)
        · cases hname
    · rcases Except.bind_eq_error.1 h with hshape | ⟨o, -, h⟩
      · exact Or.inr (Or.inr ⟨e, List.mem_cons_self, hshape⟩)
      · refine (ih h).imp_right (Or.imp_right ?_)
        rintro ⟨e', he', hshape⟩
        exact ⟨e', List.mem_cons_of_mem _ he', hshape⟩

end Views

variable {defs : Dict Output} {name : String} {fields : List Field}

/-! ## Records -/

namespace OutputStruct

variable {parent : Option OutputStruct} {views : List (String × List Field)} {base : Output}
  {s : OutputStruct}

/-- The shape of a view: the default view with the fields of the view laid over it. -/
def viewShape (defs : Dict Output) (name : String) (base : Output) (view : String)
    (fields : List Field) : Except DefinitionError Output := do
  Field.checkDistinct fields
  .ok (.referenced (.merge base (Field.object defs fields)) (name ++ "." ++ view))

theorem viewShape_eq_ok {view : String} {o : Output} :
    viewShape defs name base view fields = .ok o ↔ (fields.map Field.name).Nodup ∧
      o = .referenced (.merge base (Field.object defs fields)) (name ++ "." ++ view) := by
  constructor
  · intro h
    obtain ⟨⟨⟩, hcheck, h⟩ := Except.bind_eq_ok.1 h
    exact ⟨Field.checkDistinct_eq_ok.1 hcheck, (Except.ok.inj h).symm⟩
  · rintro ⟨hnodup, rfl⟩
    exact Except.bind_eq_ok.2 ⟨(), Field.checkDistinct_eq_ok.2 hnodup, rfl⟩

theorem buildViews_eq (defs : Dict Output) (name : String) (base : Output) (built : Dict Output)
    (views : List (String × List Field)) :
    buildViews defs name base built views =
      declareViews (viewShape defs name base) built views := by
  induction views generalizing built with
  | nil => rfl
  | cons e rest ih =>
    obtain ⟨view, fields⟩ := e
    rw [buildViews, declareViews, viewShape]
    cases Field.checkDistinct fields with
    | error _ => rfl
    | ok _ => exact congrArg ((checkViewName built view).bind ·) (funext fun _ => ih _)

/-- The fields of the parent's default view with the own ones laid over them. -/
def inherit (parent : Option OutputStruct) (own : Output) : Output :=
  match parent with
  | some parent => .merge parent.base own
  | none => own

/-- **What a record is built from**: distinct fields, laid over those of `parent`, and views with
shapes of their own. -/
theorem build_eq_ok : build defs name parent fields views = .ok s ↔
    (fields.map Field.name).Nodup ∧ Declarable views ∧ s.name = name ∧
      s.own = Field.object defs fields ∧ s.inherited = inherit parent s.own ∧
      s.base = .referenced s.inherited name ∧
      ∃ shapes : Dict Output, Shapes (viewShape defs name s.base) views shapes ∧
        s.output = if shapes.isEmpty then s.base else .viewed [] s.base shapes := by
  constructor
  · intro h
    obtain ⟨⟨⟩, hcheck, h⟩ := Except.bind_eq_ok.1 h
    obtain ⟨all, hall, h⟩ := Except.bind_eq_ok.1 h
    obtain rfl := Except.ok.inj h
    rw [buildViews_eq] at hall
    obtain ⟨hviews, hshapes⟩ := declareViews_eq_ok.1 hall
    exact ⟨Field.checkDistinct_eq_ok.1 hcheck, hviews, rfl, rfl, rfl, rfl, _, hshapes, rfl⟩
  · obtain ⟨name', own, inherited, base, output⟩ := s
    dsimp only
    rintro ⟨hfields, hviews, rfl, rfl, rfl, rfl, shapes, hshapes, rfl⟩
    refine Except.bind_eq_ok.2 ⟨(), Field.checkDistinct_eq_ok.2 hfields, ?_⟩
    refine Except.bind_eq_ok.2 ⟨shapes, ?_, rfl⟩
    rw [buildViews_eq]
    exact declareViews_eq_ok.2 ⟨hviews, hshapes⟩

end OutputStruct

/-! ## Blueprints -/

namespace Blueprint

variable {views : List (String × List FieldEdit)} {b : Blueprint}

/-- The shape of a view: the fields of the blueprint, edited. -/
def viewShape (defs : Dict Output) (name : String) (fields : List Field) (view : String)
    (edits : List FieldEdit) : Except DefinitionError Output := do
  let edited ← edit fields edits
  Field.checkDistinct edited
  .ok (.referenced (Field.object defs edited) (name ++ "." ++ view))

theorem viewShape_eq_ok {view : String} {edits : List FieldEdit} {o : Output} :
    viewShape defs name fields view edits = .ok o ↔ ∃ edited, edit fields edits = .ok edited ∧
      (edited.map Field.name).Nodup ∧
      o = .referenced (Field.object defs edited) (name ++ "." ++ view) := by
  constructor
  · intro h
    obtain ⟨edited, hedited, h⟩ := Except.bind_eq_ok.1 h
    obtain ⟨⟨⟩, hcheck, h⟩ := Except.bind_eq_ok.1 h
    exact ⟨edited, hedited, Field.checkDistinct_eq_ok.1 hcheck, (Except.ok.inj h).symm⟩
  · rintro ⟨edited, hedited, hnodup, rfl⟩
    refine Except.bind_eq_ok.2 ⟨edited, hedited, ?_⟩
    exact Except.bind_eq_ok.2 ⟨(), Field.checkDistinct_eq_ok.2 hnodup, rfl⟩

theorem buildViews_eq (defs : Dict Output) (name : String) (fields : List Field)
    (built : Dict Output) (views : List (String × List FieldEdit)) :
    buildViews defs name fields built views =
      declareViews (viewShape defs name fields) built views := by
  induction views generalizing built with
  | nil => rfl
  | cons e rest ih =>
    obtain ⟨view, edits⟩ := e
    rw [buildViews, declareViews, viewShape]
    cases edit fields edits with
    | error _ => rfl
    | ok edited =>
      refine congrArg ((checkViewName built view).bind ·) (funext fun _ => ?_)
      change (Field.checkDistinct edited).bind _ = ((Field.checkDistinct edited).bind _).bind _
      cases Field.checkDistinct edited with
      | error _ => rfl
      | ok _ => exact ih _

/-- **What a blueprint is built from.** -/
theorem build_eq_ok : build defs name fields views = .ok b ↔
    (fields.map Field.name).Nodup ∧ Declarable views ∧ b.name = name ∧
      b.base = .referenced (Field.object defs fields) name ∧
      Shapes (viewShape defs name fields) views b.views := by
  constructor
  · intro h
    obtain ⟨⟨⟩, hcheck, h⟩ := Except.bind_eq_ok.1 h
    obtain ⟨all, hall, h⟩ := Except.bind_eq_ok.1 h
    obtain rfl := Except.ok.inj h
    rw [buildViews_eq] at hall
    obtain ⟨hviews, hshapes⟩ := declareViews_eq_ok.1 hall
    exact ⟨Field.checkDistinct_eq_ok.1 hcheck, hviews, rfl, rfl, hshapes⟩
  · obtain ⟨name', base, shapes⟩ := b
    dsimp only
    rintro ⟨hfields, hviews, rfl, rfl, hshapes⟩
    refine Except.bind_eq_ok.2 ⟨(), Field.checkDistinct_eq_ok.2 hfields, ?_⟩
    refine Except.bind_eq_ok.2 ⟨shapes, ?_, rfl⟩
    rw [buildViews_eq]
    exact declareViews_eq_ok.2 ⟨hviews, hshapes⟩

end Blueprint

end JsonShape
