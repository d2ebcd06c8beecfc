import JsonShape.Proofs.Json.Canonical
import JsonShape.Proofs.Output.Build
import JsonShape.Proofs.Output.Limit

/-!
# Fields laid over others, before writing and after

The view of a record writes the default view and its own fields, and lays the second object over the
first. The view of a blueprint lays the fields over one another and writes what results. So they
differ in one case: a field that is omitted because it is null hides the field that it replaces from
a blueprint, and not from a record, whose default view has written it by then.

* `Field.omitted`: when a field writes no member.
* `Blueprint.named_addFields`: fields are replaced like entries of an association list.
* `Blueprint.record_agrees_iff`: the two write equal values exactly where no omitted field replaces
  one that is written.
-/

namespace JsonShape

namespace Field

open Output

variable {defs : Dict Output} {fields added : List Field} {f : Field} {k : String} {v : Json}

/-! ## Fields by name -/

/-- The fields under their names. -/
def named (fields : List Field) : Dict Field := fields.map fun f => (f.name, f)

theorem names_named (fields : List Field) : (named fields).names = fields.map name := by
  rw [Dict.names, named, List.map_map]
  rfl

theorem get?_named (h : (fields.map name).Nodup) :
    (named fields).get? k = some f ↔ f ∈ fields ∧ f.name = k := by
  rw [Dict.get?_eq_some_iff (names_named fields ▸ h), named, List.mem_map]
  constructor
  · rintro ⟨g, hg, heq⟩
    obtain ⟨rfl, rfl⟩ := Prod.mk.inj heq
    exact ⟨hg, rfl⟩
  · rintro ⟨hf, rfl⟩
    exact ⟨f, hf, rfl⟩

/-! ## Omitted fields -/

/-- A field writes no member if it is optional and its value is null. -/
def omitted (f : Field) (v : Json) : Bool :=
  ((f.extract.getD fun v => v.getOrNull f.name) v).isNull && !f.required

/-- The member that the field `f` writes for `v`. -/
def written (unchecked : Caller) (defs : Dict Output) (v : Json) (f : Field) : Option Json :=
  (callProperty unchecked v (f.property defs)).join

theorem callProperty_property (unchecked : Caller) (f : Field) (v : Json) :
    callProperty unchecked v (f.property defs) =
      if f.omitted v then some none
      else (callWith unchecked (f.property defs).value none ((f.property defs).read v)).map some :=
  rfl

theorem written_eq_none_iff {unchecked : Caller} {w : Option Json}
    (hw : callProperty unchecked v (f.property defs) = some w) :
    f.written unchecked defs v = none ↔ f.omitted v := by
  rw [written, hw, Option.join_some]
  rw [callProperty_property] at hw
  split at hw
  · next h => exact iff_of_true (Option.some.inj hw).symm h
  · next h =>
    obtain ⟨j, -, rfl⟩ := Option.map_eq_some_iff.1 hw
    exact iff_of_false nofun h

theorem keys_properties (defs : Dict Output) (fields : List Field) :
    (fields.map (property defs)).map Property.key = fields.map name := by
  rw [List.map_map]
  rfl

/-- The object of some fields is written if every field is. -/
theorem exists_callWith_object {unchecked : Caller} (h : (fields.map name).Nodup)
    (view : Option String) : (∃ w, callWith unchecked (object defs fields) view v = some w) ↔
      ∀ f ∈ fields, ∃ w, callProperty unchecked v (f.property defs) = some w := by
  rw [object, Output.exists_callWith_object (keys_properties defs fields ▸ h), List.forall_mem_map]

/-- What the object of some fields writes is what they write, by name. -/
theorem get?_of_callWith_object {unchecked : Caller} {view : Option String} {w : Json}
    (h : (fields.map name).Nodup) (hw : callWith unchecked (object defs fields) view v = some w) :
    ∃ ms : Dict Json, w = .object ms ∧ ms.names.Nodup ∧
      ∀ k, ms.get? k = ((named fields).get? k).bind (written unchecked defs v) := by
  obtain ⟨ms, rfl, hms, hget⟩ :=
    Output.get?_of_callWith_object (keys_properties defs fields ▸ h) hw
  refine ⟨ms, rfl, hms, fun k => Option.ext fun j => ?_⟩
  rw [hget, Option.bind_eq_some_iff]
  constructor
  · rintro ⟨p, hp, rfl, hj⟩
    obtain ⟨f, hf, rfl⟩ := List.mem_map.1 hp
    exact ⟨f, (get?_named h).2 ⟨hf, rfl⟩, by rw [written, hj, Option.join_some]⟩
  · rintro ⟨f, hf, hj⟩
    obtain ⟨hmem, rfl⟩ := (get?_named h).1 hf
    exact ⟨_, List.mem_map_of_mem hmem, rfl, Option.join_eq_some_iff.1 hj⟩

end Field

namespace Blueprint

open Output
open JsonShape.Field (named names_named get?_named written)

/-! ## Replaced fields -/

variable {defs : Dict Output} {fields added : List Field}

theorem named_addField (fields : List Field) (f : Field) :
    named (addField fields f) = (named fields).insert f.name f := by
  induction fields with
  | nil => rfl
  | cons g rest ih =>
    have hcons : named (g :: rest) = (g.name, g) :: named rest := rfl
    rw [addField, hcons, Dict.insert]
    split
    · next h => rw [h]; rfl
    · exact congrArg ((g.name, g) :: ·) ih

/-- **Fields are replaced like entries**: `addField` is `Dict.extend` on names. -/
theorem named_addFields (fields added : List Field) :
    named (added.foldl addField fields) = (named fields).extend (named added) := by
  induction added generalizing fields with
  | nil => rfl
  | cons f rest ih => rw [List.foldl_cons, ih, named_addField]; rfl

theorem nodup_addFields (h : (fields.map Field.name).Nodup) (added : List Field) :
    ((added.foldl addField fields).map Field.name).Nodup := by
  rw [← names_named, named_addFields]
  exact Dict.nodup_names_extend (names_named fields ▸ h) _

theorem get?_addFields (hadded : (added.map Field.name).Nodup) (fields : List Field) (k : String) :
    (named (added.foldl addField fields)).get? k =
      ((named added).get? k).or ((named fields).get? k) := by
  rw [named_addFields, Dict.get?_extend_of_nodup (names_named added ▸ hadded)]

/-- A field that is in force is one of `added`, or one that these do not replace. -/
theorem mem_addFields (hfields : (fields.map Field.name).Nodup)
    (hadded : (added.map Field.name).Nodup) {f : Field} :
    f ∈ added.foldl addField fields ↔ f ∈ added ∨ f.name ∉ added.map Field.name ∧ f ∈ fields := by
  have hself {l : List Field} (h : (l.map Field.name).Nodup) :
      f ∈ l ↔ (named l).get? f.name = some f := by
    rw [get?_named h, and_iff_left rfl]
  rw [hself (nodup_addFields hfields added), get?_addFields hadded, Option.or_eq_some_iff,
    ← hself hadded, ← hself hfields, Dict.get?_eq_none_iff, names_named]

section Overlay

variable {unchecked : Caller} {v base own edited : Json} {view : Option String}

/-- Replacing fields before writing leaves no more to be written: where `fields` and `added` are,
the edited fields are. -/
theorem exists_edited (hfields : (fields.map Field.name).Nodup)
    (hadded : (added.map Field.name).Nodup)
    (hbase : callWith unchecked (Field.object defs fields) view v = some base)
    (hown : callWith unchecked (Field.object defs added) view v = some own) :
    ∃ w, callWith unchecked (Field.object defs (added.foldl addField fields)) view v = some w := by
  rw [Field.exists_callWith_object (nodup_addFields hfields added)]
  intro f hf
  rcases (mem_addFields hfields hadded).1 hf with hf | ⟨-, hf⟩
  · exact (Field.exists_callWith_object hadded view).1 ⟨own, hown⟩ f hf
  · exact (Field.exists_callWith_object hfields view).1 ⟨base, hbase⟩ f hf

theorem exists_own (hfields : (fields.map Field.name).Nodup) (hadded : (added.map Field.name).Nodup)
    (hedited : callWith unchecked (Field.object defs (added.foldl addField fields)) view v =
      some edited) :
    ∃ w, callWith unchecked (Field.object defs added) view v = some w := by
  rw [Field.exists_callWith_object hadded]
  intro f hf
  exact (Field.exists_callWith_object (nodup_addFields hfields added) view).1 ⟨edited, hedited⟩ f
    ((mem_addFields hfields hadded).2 (Or.inl hf))

/-- Laying over after writing differs only where what lies above is written as nothing. -/
theorem or_bind_eq_iff {α β γ : Type} {above below : Option α} {write : α → Option β}
    (c : β → γ) : ((above.bind write).or (below.bind write)).map c =
      ((above.or below).bind write).map c ↔
        ∀ a, above = some a → write a = none → below.bind write = none := by
  cases above with
  | none => exact iff_of_true rfl nofun
  | some a =>
    rw [Option.bind_some, Option.some_or, Option.bind_some]
    cases ha : write a with
    | some b =>
      refine iff_of_true rfl fun a' heq hnone => ?_
      obtain rfl := Option.some.inj heq
      cases ha.symm.trans hnone
    | none =>
      rw [Option.none_or, Option.map_none, Option.map_eq_none_iff]
      exact ⟨fun h _ _ _ => h, fun h => h a rfl ha⟩

/-- **Laying over before writing and after agree where no omitted field replaces one that is
written.** Here `base.merge own` is laid over afterwards, and `edited` is written of the fields that
were replaced before. -/
theorem merge_same_iff (hfields : (fields.map Field.name).Nodup)
    (hadded : (added.map Field.name).Nodup)
    (hbase : callWith unchecked (Field.object defs fields) view v = some base)
    (hown : callWith unchecked (Field.object defs added) view v = some own)
    (hedited : callWith unchecked (Field.object defs (added.foldl addField fields)) view v =
      some edited) :
    (base.merge own).same edited ↔
      ∀ f ∈ added, f.omitted v → ∀ g ∈ fields, g.name = f.name → g.omitted v := by
  have hanswer : ∀ f ∈ added, written unchecked defs v f = none ↔ f.omitted v := fun f hf =>
    have ⟨_, hw⟩ := (Field.exists_callWith_object hadded view).1 ⟨own, hown⟩ f hf
    Field.written_eq_none_iff hw
  have hanswer' : ∀ g ∈ fields, written unchecked defs v g = none ↔ g.omitted v := fun g hg =>
    have ⟨_, hw⟩ := (Field.exists_callWith_object hfields view).1 ⟨base, hbase⟩ g hg
    Field.written_eq_none_iff hw
  obtain ⟨a, rfl, ha, hgeta⟩ := Field.get?_of_callWith_object hfields hbase
  obtain ⟨b, rfl, hb, hgetb⟩ := Field.get?_of_callWith_object hadded hown
  obtain ⟨e, rfl, he, hgete⟩ :=
    Field.get?_of_callWith_object (nodup_addFields hfields added) hedited
  have hmerge : (Json.object a).merge (.object b) = .object (a.extend b) := rfl
  rw [hmerge, Json.same_object_iff (Dict.nodup_names_extend ha b) he]
  simp only [Dict.get?_extend_of_nodup hb, hgeta, hgetb, hgete, get?_addFields hadded]
  constructor
  · intro h f hf homitted g hg hname
    have hnone := (or_bind_eq_iff _).1 (h f.name) f ((get?_named hadded).2 ⟨hf, rfl⟩)
      ((hanswer f hf).2 homitted)
    rw [(get?_named hfields).2 ⟨hg, hname⟩, Option.bind_some] at hnone
    exact (hanswer' g hg).1 hnone
  · refine fun h k => (or_bind_eq_iff _).2 fun f hget hwritten => ?_
    obtain ⟨hf, rfl⟩ := (get?_named hadded).1 hget
    refine Option.bind_eq_none_iff.2 fun g hg => ?_
    obtain ⟨hg, hname⟩ := (get?_named hfields).1 hg
    exact (hanswer' g hg).2 (h f hf ((hanswer f hf).1 hwritten) g hg hname)

end Overlay

/-! ## Records and blueprints of the same fields -/

variable {name : String} {views : List (String × List Field)} {s : OutputStruct} {b : Blueprint}

/-- The views of a blueprint that add the fields that `views` of a record declare. -/
def adding (views : List (String × List Field)) : List (String × List FieldEdit) :=
  Dict.mapValues (List.map .add) views

/-- The fields of the requested view. -/
def requested (views : List (String × List Field)) (view : Option String) : List Field :=
  (view.bind (Dict.get? views)).getD []

theorem edit_add (fields added : List Field) :
    edit fields (added.map .add) = .ok (added.foldl addField fields) := by
  induction added generalizing fields with
  | nil => rfl
  | cons f rest ih => exact ih (addField fields f)

theorem nodup_requested (hviews : ∀ e ∈ views, (e.2.map Field.name).Nodup) (view : Option String) :
    ((requested views view).map Field.name).Nodup := by
  rw [requested]
  cases h : view.bind (Dict.get? views) with
  | none => exact List.nodup_nil
  | some added =>
    obtain ⟨k, -, hk⟩ := Option.bind_eq_some_iff.1 h
    exact hviews _ (Dict.mem_of_get? hk)

/-- A record of such fields is built. -/
theorem exists_record (hfields : (fields.map Field.name).Nodup) (hnames : Declarable views)
    (hviews : ∀ e ∈ views, (e.2.map Field.name).Nodup) (defs : Dict Output) (name : String) :
    ∃ s, OutputStruct.build defs name none fields views = .ok s := by
  let base := Output.referenced (Field.object defs fields) name
  obtain ⟨shapes, hshapes⟩ :
      ∃ shapes, Shapes (OutputStruct.viewShape defs name base) views shapes :=
    Shapes.exists_of_forall fun e he => ⟨_, OutputStruct.viewShape_eq_ok.2 ⟨hviews e he, rfl⟩⟩
  let output := if shapes.isEmpty then base else .viewed [] base shapes
  exact ⟨⟨name, Field.object defs fields, Field.object defs fields, base, output⟩,
    OutputStruct.build_eq_ok.2 ⟨hfields, hnames, rfl, rfl, rfl, rfl, shapes, hshapes, rfl⟩⟩

/-- A blueprint of such fields is built. -/
theorem exists_blueprint (hfields : (fields.map Field.name).Nodup) (hnames : Declarable views)
    (defs : Dict Output) (name : String) :
    ∃ b, build defs name fields (adding views) = .ok b := by
  obtain ⟨shapes, hshapes⟩ :
      ∃ shapes, Shapes (viewShape defs name fields) (adding views) shapes := by
    refine Shapes.exists_of_forall fun e he => ?_
    obtain ⟨e, -, rfl⟩ := List.mem_map.1 he
    exact ⟨_, viewShape_eq_ok.2 ⟨_, edit_add fields e.2, nodup_addFields hfields e.2, rfl⟩⟩
  have hnames' : Declarable (adding views) := by
    rwa [Declarable, adding, Dict.names_mapValues]
  exact ⟨⟨_, _, shapes⟩, build_eq_ok.2 ⟨hfields, hnames', rfl, rfl, hshapes⟩⟩

/-- A requested view is declared and its shape chosen, or the default view is. -/
theorem chosen_cases {α : Type} {shape : String → α → Except DefinitionError Output}
    {views : List (String × α)} {shapes : Dict Output} (h : Shapes shape views shapes)
    (base : Output) (view : Option String) :
    (view.bind (Dict.get? views) = none ∧ chosen base shapes view = base) ∨
      ∃ name a, view.bind (Dict.get? views) = some a ∧
        shape name a = .ok (chosen base shapes view) := by
  cases view with
  | none => exact Or.inl ⟨rfl, rfl⟩
  | some name =>
    rw [chosen_some, Option.bind_some]
    rcases h.get? name with ⟨hviews, hshapes⟩ | ⟨a, o, hviews, hshapes, ho⟩
    · exact Or.inl ⟨hviews, by rw [hshapes, Option.getD_none]⟩
    · exact Or.inr ⟨name, a, hviews, by rw [hshapes, Option.getD_some, ho]⟩

/-- A record writes the view that is chosen. -/
theorem alike_record {shapes : Dict Output} (hbase : baseView ∉ shapes.names)
    (houtput : s.output = if shapes.isEmpty then s.base else .viewed [] s.base shapes)
    (view : Option String) : Alike s.output view (chosen s.base shapes view) view := by
  rw [houtput]
  cases shapes with
  | nil => cases view <;> exact Alike.refl _ _
  | cons e rest =>
    rw [← chosen_cons_base_of_notMem hbase]
    exact alike_viewed [] s.base (e :: rest) view

/-- Nothing is laid over an object. -/
theorem callWith_object_bind_merge (unchecked : Caller) (view : Option String) (v : Json) :
    ((callWith unchecked (Field.object defs fields) view v).bind fun base =>
      (callWith unchecked (Field.object defs []) view v).map base.merge) =
        callWith unchecked (Field.object defs fields) view v := by
  rw [Field.object, callWith_object]
  cases (inForce (fields.map (Field.property defs))).mapM fun p =>
    (callProperty unchecked v p).map fun w => (p.key, w) <;> rfl

/-- A record writes its fields and those of the requested view, and lays the second over the
first. -/
theorem callWith_record (h : OutputStruct.build defs name none fields views = .ok s)
    (unchecked : Caller) (view : Option String) (v : Json) :
    callWith unchecked s.output view v =
      (callWith unchecked (Field.object defs fields) view v).bind fun base =>
        (callWith unchecked (Field.object defs (requested views view)) view v).map base.merge := by
  obtain ⟨-, ⟨hnames, -⟩, -, hown, hinherited, hbase, shapes, hshapes, houtput⟩ :=
    OutputStruct.build_eq_ok.1 h
  rw [← hshapes.names] at hnames
  have hobject : callWith unchecked s.base view v =
      callWith unchecked (Field.object defs fields) view v := by
    rw [hbase, hinherited, hown]
    rfl
  rw [(alike_record hnames houtput view).call, requested]
  rcases chosen_cases hshapes s.base view with ⟨hnone, hchosen⟩ | ⟨_, added, hsome, hshape⟩
  · rw [hnone, hchosen, hobject]
    exact (callWith_object_bind_merge unchecked view v).symm
  · obtain ⟨-, hchosen⟩ := OutputStruct.viewShape_eq_ok.1 hshape
    rw [hsome, hchosen, callWith, callWith, hobject]
    simp only [Option.map_eq_bind]
    rfl

/-- A blueprint writes its fields, those of the requested view laid over them. -/
theorem callWith_blueprint (h : build defs name fields (adding views) = .ok b)
    (unchecked : Caller) (view : Option String) (v : Json) :
    callWith unchecked b.output view v =
      callWith unchecked (Field.object defs ((requested views view).foldl addField fields)) view
        v := by
  obtain ⟨-, -, -, hbase, hshapes⟩ := build_eq_ok.1 h
  have hget : view.bind (Dict.get? (adding views)) =
      (view.bind (Dict.get? views)).map (List.map .add) := by
    cases view with
    | none => rfl
    | some name => exact Dict.get?_mapValues _ views name
  rw [output, (alike_chain ..).call, requested]
  rcases chosen_cases hshapes b.base view with ⟨hnone, hchosen⟩ | ⟨_, edits, hsome, hshape⟩
  · rw [hget, Option.map_eq_none_iff] at hnone
    rw [hnone, hchosen, hbase]
    rfl
  · obtain ⟨added, hadded, rfl⟩ := Option.map_eq_some_iff.1 (hget.symm.trans hsome)
    obtain ⟨edited, hedited, -, hchosen⟩ := viewShape_eq_ok.1 hshape
    obtain rfl := Except.ok.inj ((edit_add fields added).symm.trans hedited)
    rw [hadded, hchosen]
    rfl

/-- **Where views of records and of blueprints agree.** For the same `fields` and `views`, a record
`s` and a blueprint `b` are built. Where `s` writes `w` under a requested view, `b` writes some
`w'`, and the two are equal if and only if no field of this view that `v` omits replaces a field
that `v` does not omit. Where `b` writes under this view and by default, `s` writes too. -/
theorem record_agrees_iff (hfields : (fields.map Field.name).Nodup) (hnames : Declarable views)
    (hviews : ∀ e ∈ views, (e.2.map Field.name).Nodup) (defs : Dict Output) (name : String) :
    ∃ s b, OutputStruct.build defs name none fields views = .ok s ∧
      build defs name fields (adding views) = .ok b ∧ ∀ limit view v,
        (∀ w, callAt defs limit s.output view v = some w →
          ∃ w', callAt defs limit b.output view v = some w' ∧
            (w.same w' ↔ ∀ f ∈ requested views view, f.omitted v →
              ∀ g ∈ fields, g.name = f.name → g.omitted v)) ∧
        ∀ base w', callAt defs limit b.output none v = some base →
          callAt defs limit b.output view v = some w' →
            ∃ w, callAt defs limit s.output view v = some w := by
  obtain ⟨s, hs⟩ := exists_record hfields hnames hviews defs name
  obtain ⟨b, hb⟩ := exists_blueprint hfields hnames defs name
  refine ⟨s, b, hs, hb, fun limit view v => ?_⟩
  have hadded := nodup_requested hviews view
  simp only [callAt_eq, callWith_record hs, callWith_blueprint hb]
  constructor
  · intro w hw
    obtain ⟨base, hbase, hw⟩ := Option.bind_eq_some_iff.1 hw
    obtain ⟨own, hown, rfl⟩ := Option.map_eq_some_iff.1 hw
    obtain ⟨edited, hedited⟩ := exists_edited hfields hadded hbase hown
    exact ⟨edited, hedited, merge_same_iff hfields hadded hbase hown hedited⟩
  · intro base edited hbase hedited
    obtain ⟨own, hown⟩ := exists_own hfields hadded hedited
    refine ⟨base.merge own, Option.bind_eq_some_iff.2 ⟨base, hbase, ?_⟩⟩
    rw [hown, Option.map_some]

section Note

/-- A note that is required by default, and that the view `open` allows to be missing. -/
def note : Field := ⟨"note", .ready (.text none), none, none, true⟩

/-- Where there is a note, record and blueprint write it. -/
theorem record_agrees_iff_note :
    let views := [("open", [{ note with required := false }])]
    let v : Json := .object [("note", .string "blue")]
    ∃ s b w w', OutputStruct.build [] "Item" none [note] views = .ok s ∧
      build [] "Item" [note] (adding views) = .ok b ∧
      callAt [] 0 s.output (some "open") v = some w ∧
      callAt [] 0 b.output (some "open") v = some w' ∧ w.same w' := by
  intro views v
  have hfields : ([note].map Field.name).Nodup := List.nodup_singleton _
  have hnames : Declarable views := ⟨by decide, List.nodup_singleton _⟩
  have hviews : ∀ e ∈ views, (e.2.map Field.name).Nodup :=
    List.forall_mem_singleton.2 (List.nodup_singleton _)
  obtain ⟨s, b, hs, hb, hagree⟩ := record_agrees_iff hfields hnames hviews [] "Item"
  have hrecord : OutputStruct.build [] "Item" none [note] views = .ok _ := rfl
  obtain rfl := Except.ok.inj (hrecord.symm.trans hs)
  obtain ⟨w', hw', hsame⟩ := (hagree 0 (some "open") v).1 _ rfl
  exact ⟨_, b, _, w', hs, hb, rfl, hw', hsame.2 (by decide)⟩

/-- **Where there is none, the record writes null and the blueprint nothing.** -/
theorem record_disagrees_note :
    let views := [("open", [{ note with required := false }])]
    ∃ s b, OutputStruct.build [] "Item" none [note] views = .ok s ∧
      build [] "Item" [note] (adding views) = .ok b ∧
      call [] s.output (some "open") (.object []) = some (.object [("note", .null)]) ∧
      call [] b.output (some "open") (.object []) = some (.object []) ∧
      ¬(Json.object [("note", .null)]).same (.object []) :=
  ⟨_, _, rfl, rfl, rfl, rfl, by decide⟩

end Note

end Blueprint

end JsonShape
