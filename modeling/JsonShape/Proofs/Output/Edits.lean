import JsonShape.Proofs.Output.Overlay

/-!
# Edited copies of field lists

The view of a blueprint is a small program: its edits run over a copy of the field list, one after
the other. What is left when they are through is told by the last edit of each name alone, and
whether they get through by what each `except` finds.

* `Blueprint.lastEdit?`: the last edit of a name.
* `Blueprint.get?_named_applyEdit` and `Blueprint.get?_named_edit`: what one edit does to the fields
  by name, and what a run of them does.
* `Blueprint.edit_isOk_iff`: edits get through if every `except` finds its field.
* `Blueprint.build_isOk_iff`: when there is a blueprint, and what its views hold.
-/

namespace JsonShape

open Output
open JsonShape.Field (named names_named get?_named)

/-- The name that an edit is about. -/
def FieldEdit.target : FieldEdit → String
  | .add f => f.name
  | .except name => name

/-- What an edit leaves under its name. -/
def FieldEdit.left? : FieldEdit → Option Field
  | .add f => some f
  | .except _ => none

namespace Blueprint

variable {fields edited : List Field} {edits : List FieldEdit} {x : String} {f : Field}

/-- The last edit of the name `x`, if there is one. -/
def lastEdit? (edits : List FieldEdit) (x : String) : Option FieldEdit :=
  edits.reverse.find? fun e => e.target = x

theorem lastEdit?_cons (e : FieldEdit) (rest : List FieldEdit) (x : String) :
    lastEdit? (e :: rest) x = (lastEdit? rest x).or (if e.target = x then some e else none) := by
  rw [lastEdit?, List.reverse_cons, List.find?_append, ← lastEdit?]
  by_cases h : e.target = x <;> simp [h]

theorem target_of_lastEdit? {e : FieldEdit} (h : lastEdit? edits x = some e) : e.target = x := by
  simpa using List.find?_some h

/-! ## One edit -/

theorem applyEdit_except {name : String} :
    applyEdit fields (.except name) = .ok edited ↔
      name ∈ fields.map Field.name ∧ edited = fields.filter fun f => f.name != name := by
  have hany : (fields.any fun f => f.name == name) = true ↔ name ∈ fields.map Field.name := by
    simp
  rw [applyEdit]
  split
  · next h => simp [← hany, h, eq_comm]
  · next h => simp [← hany, h]

/-- Dropped fields are erased like entries. -/
theorem named_filter (fields : List Field) (name : String) :
    named (fields.filter fun f => f.name != name) = (named fields).erase name := by
  rw [named, named, Dict.erase, List.filter_map]
  refine congrArg (List.map _) (List.filter_congr fun f _ => ?_)
  rw [Function.comp_apply, decide_not]
  rfl

/-- **An edit changes what stands under its name, and nothing else**: `e.left?` stands there
afterwards. -/
theorem get?_named_applyEdit {e : FieldEdit} (h : applyEdit fields e = .ok edited) (x : String) :
    (named edited).get? x = if e.target = x then e.left? else (named fields).get? x := by
  cases e with
  | add f =>
    obtain rfl := Except.ok.inj h
    rw [named_addField, Dict.get?_insert]
    rfl
  | except name =>
    obtain ⟨-, rfl⟩ := applyEdit_except.1 h
    rw [named_filter, Dict.get?_erase]
    rfl

/-- An edit repeats no name. -/
theorem nodup_applyEdit {e : FieldEdit} (h : applyEdit fields e = .ok edited)
    (hfields : (fields.map Field.name).Nodup) : (edited.map Field.name).Nodup := by
  cases e with
  | add f =>
    obtain rfl := Except.ok.inj h
    exact nodup_addFields hfields [f]
  | except name =>
    obtain ⟨-, rfl⟩ := applyEdit_except.1 h
    exact hfields.sublist (List.filter_sublist.map Field.name)

/-- An edit is refused for a field that is not there. -/
theorem applyEdit_isOk_iff {e : FieldEdit} :
    (∃ edited, applyEdit fields e = .ok edited) ↔
      ∀ x, e = .except x → x ∈ fields.map Field.name := by
  cases e with
  | add f => exact iff_of_true ⟨_, rfl⟩ fun x h => by cases h
  | except name =>
    constructor
    · rintro ⟨edited, h⟩ x heq
      obtain rfl := FieldEdit.except.inj heq
      exact (applyEdit_except.1 h).1
    · exact fun h => ⟨_, applyEdit_except.2 ⟨h name rfl, rfl⟩⟩

theorem unknownField_of_applyEdit {e : FieldEdit} {err : DefinitionError}
    (h : applyEdit fields e = .error err) : ∃ x, err = .unknownField x := by
  cases e with
  | add f => cases h
  | except name =>
    rw [applyEdit] at h
    split at h
    · cases h
    · exact ⟨name, (Except.error.inj h).symm⟩

/-! ## Edits one after the other -/

theorem edit_cons (fields : List Field) (e : FieldEdit) (rest : List FieldEdit) :
    edit fields (e :: rest) = (applyEdit fields e).bind fun current => edit current rest :=
  rfl

/-- **Of the edits of a name the last one counts** (`lastEdit?`), and without one the field
stays. -/
theorem get?_named_edit (h : edit fields edits = .ok edited) (x : String) :
    (named edited).get? x =
      ((lastEdit? edits x).map FieldEdit.left?).getD ((named fields).get? x) := by
  induction edits generalizing fields with
  | nil =>
    obtain rfl : fields = edited := Except.ok.inj h
    rfl
  | cons e rest ih =>
    obtain ⟨current, hstep, hrest⟩ := Except.bind_eq_ok.1 (edit_cons fields e rest ▸ h)
    rw [ih hrest, get?_named_applyEdit hstep, lastEdit?_cons]
    cases lastEdit? rest x with
    | some later => rfl
    | none => split <;> rfl

theorem nodup_edit (h : edit fields edits = .ok edited) (hfields : (fields.map Field.name).Nodup) :
    (edited.map Field.name).Nodup := by
  induction edits generalizing fields with
  | nil =>
    obtain rfl : fields = edited := Except.ok.inj h
    exact hfields
  | cons e rest ih =>
    obtain ⟨current, hstep, hrest⟩ := Except.bind_eq_ok.1 (edit_cons fields e rest ▸ h)
    exact ih hrest (nodup_applyEdit hstep hfields)

/-- The fields after the edits: those that were added last, and those that no edit is about. -/
theorem mem_edit (h : edit fields edits = .ok edited) (hfields : (fields.map Field.name).Nodup) :
    f ∈ edited ↔ lastEdit? edits f.name = some (.add f) ∨
      lastEdit? edits f.name = none ∧ f ∈ fields := by
  have hself {l : List Field} (hl : (l.map Field.name).Nodup) :
      f ∈ l ↔ (named l).get? f.name = some f := by
    rw [get?_named hl, and_iff_left rfl]
  rw [hself (nodup_edit h hfields), hself hfields, get?_named_edit h]
  cases lastEdit? edits f.name with
  | none => simp
  | some e => cases e <;> simp [FieldEdit.left?]

theorem mem_names_edit (h : edit fields edits = .ok edited)
    (hfields : (fields.map Field.name).Nodup) :
    x ∈ edited.map Field.name ↔ (∃ f, lastEdit? edits x = some (.add f)) ∨
      lastEdit? edits x = none ∧ x ∈ fields.map Field.name := by
  rw [List.mem_map]
  constructor
  · rintro ⟨f, hf, rfl⟩
    exact ((mem_edit h hfields).1 hf).imp (fun hadd => ⟨f, hadd⟩)
      fun ⟨hnone, hmem⟩ => ⟨hnone, List.mem_map_of_mem hmem⟩
  · rintro (⟨f, hadd⟩ | ⟨hnone, hmem⟩)
    · obtain rfl : f.name = x := target_of_lastEdit? hadd
      exact ⟨f, (mem_edit h hfields).2 (Or.inl hadd), rfl⟩
    · obtain ⟨f, hf, rfl⟩ := List.mem_map.1 hmem
      exact ⟨f, (mem_edit h hfields).2 (Or.inr ⟨hnone, hf⟩), rfl⟩

/-- Each `except` finds its field among those that the edits before it leave. -/
def Applicable (fields : List Field) (edits : List FieldEdit) : Prop :=
  ∀ earlier x later, edits = earlier ++ .except x :: later →
    ∃ current, edit fields earlier = .ok current ∧ x ∈ current.map Field.name

/-- **Edits get through if every `except` finds its field.** -/
theorem edit_isOk_iff :
    (∃ edited, edit fields edits = .ok edited) ↔ Applicable fields edits := by
  induction edits generalizing fields with
  | nil =>
    refine iff_of_true ⟨fields, rfl⟩ fun earlier x later h => ?_
    cases earlier <;> cases h
  | cons e rest ih =>
    constructor
    · rintro ⟨edited, h⟩ earlier x later hsplit
      obtain ⟨current, hstep, hrest⟩ := Except.bind_eq_ok.1 (edit_cons fields e rest ▸ h)
      rcases List.cons_eq_append_iff.1 hsplit with ⟨rfl, hsplit⟩ | ⟨earlier, rfl, rfl⟩
      · obtain ⟨rfl, -⟩ := List.cons.inj hsplit
        exact ⟨fields, rfl, (applyEdit_except.1 hstep).1⟩
      · obtain ⟨last, hlast, hx⟩ := ih.1 ⟨edited, hrest⟩ earlier x later rfl
        exact ⟨last, Except.bind_eq_ok.2 ⟨current, hstep, hlast⟩, hx⟩
    · intro h
      -- The first edit finds its field where no edit has run.
      have hfirst : ∀ x, e = .except x → x ∈ fields.map Field.name := by
        rintro x rfl
        obtain ⟨current, hcurrent, hx⟩ := h [] x rest rfl
        obtain rfl : fields = current := Except.ok.inj hcurrent
        exact hx
      obtain ⟨current, hstep⟩ := applyEdit_isOk_iff.2 hfirst
      have hlater : Applicable current rest := by
        rintro earlier x later rfl
        obtain ⟨last, hlast, hx⟩ := h (e :: earlier) x later rfl
        obtain ⟨_, hstep', hlast⟩ := Except.bind_eq_ok.1 hlast
        obtain rfl := Except.ok.inj (hstep.symm.trans hstep')
        exact ⟨last, hlast, hx⟩
      obtain ⟨edited, hedited⟩ := ih.2 hlater
      exact ⟨edited, Except.bind_eq_ok.2 ⟨current, hstep, hedited⟩⟩

/-- A field can be dropped again once it has been added again. -/
example : (edit [note] [.except "note", .add note, .except "note"]).toOption = some [] := rfl

theorem unknownField_of_edit {err : DefinitionError} (h : edit fields edits = .error err) :
    ∃ x, err = .unknownField x := by
  induction edits generalizing fields with
  | nil => cases h
  | cons e rest ih =>
    rcases Except.bind_eq_error.1 (edit_cons fields e rest ▸ h) with hstep | ⟨current, -, hrest⟩
    · exact unknownField_of_applyEdit hstep
    · exact ih hrest

/-! ## Blueprints -/

section Build

variable {defs : Dict Output} {name : String} {views : List (String × List FieldEdit)}

/-- The shape of a view is made if its edits are `Applicable`: no name is repeated after them. -/
theorem viewShape_isOk_iff (hfields : (fields.map Field.name).Nodup) {view : String} :
    (∃ o, viewShape defs name fields view edits = .ok o) ↔ Applicable fields edits := by
  rw [← edit_isOk_iff]
  constructor
  · rintro ⟨o, h⟩
    obtain ⟨edited, hedited, -⟩ := viewShape_eq_ok.1 h
    exact ⟨edited, hedited⟩
  · rintro ⟨edited, hedited⟩
    exact ⟨_, viewShape_eq_ok.2 ⟨edited, hedited, nodup_edit hedited hfields, rfl⟩⟩

theorem unknownField_of_viewShape (hfields : (fields.map Field.name).Nodup) {view : String}
    {err : DefinitionError} (h : viewShape defs name fields view edits = .error err) :
    ∃ x, err = .unknownField x := by
  rcases Except.bind_eq_error.1 h with hedit | ⟨edited, hedit, h⟩
  · exact unknownField_of_edit hedit
  · have hcheck := Field.checkDistinct_eq_ok.2 (nodup_edit hedit hfields)
    rcases Except.bind_eq_error.1 h with hrefused | ⟨_, _, h⟩
    · cases hcheck.symm.trans hrefused
    · cases h

/-- There is a blueprint if its names are distinct and its edits get through. -/
theorem exists_build_iff : (∃ b, build defs name fields views = .ok b) ↔
    (fields.map Field.name).Nodup ∧ Declarable views ∧ ∀ e ∈ views, Applicable fields e.2 := by
  constructor
  · rintro ⟨b, hb⟩
    obtain ⟨hfields, hnames, -, -, hshapes⟩ := build_eq_ok.1 hb
    refine ⟨hfields, hnames, fun e he => ?_⟩
    obtain ⟨s, -, -, hs⟩ := exists_of_forall₂_of_mem hshapes he
    exact (viewShape_isOk_iff hfields).1 ⟨s.2, hs⟩
  · rintro ⟨hfields, hnames, hedits⟩
    obtain ⟨shapes, hshapes⟩ : ∃ shapes, Shapes (viewShape defs name fields) views shapes :=
      Shapes.exists_of_forall fun e he => (viewShape_isOk_iff hfields).2 (hedits e he)
    exact ⟨⟨name, _, shapes⟩, build_eq_ok.2 ⟨hfields, hnames, rfl, rfl, hshapes⟩⟩

/-- Only the fields of the blueprint itself are refused as duplicates. -/
theorem checkDistinct_of_build (h : build defs name fields views = .error (.duplicateField x)) :
    Field.checkDistinct fields = .error (.duplicateField x) := by
  rcases Except.bind_eq_error.1 h with hcheck | ⟨⟨⟩, hcheck, h⟩
  · exact hcheck
  · have hfields := Field.checkDistinct_eq_ok.1 hcheck
    rcases Except.bind_eq_error.1 h with hviews | ⟨_, _, h⟩
    · rw [buildViews_eq] at hviews
      rcases refused_of_declareViews hviews with h | ⟨view, h⟩ | ⟨e, -, h⟩
      · cases h
      · cases h
      · obtain ⟨y, hy⟩ := unknownField_of_viewShape hfields h
        cases hy
    · cases h

/-- **Definitions of blueprints are checked completely.** There is a blueprint if and only if its
fields are distinct, the names of its views can be declared, and every `except` finds its field
among those that the edits before it leave. No view of it repeats a name, so that only the fields of
the blueprint itself are refused as duplicates; and a view holds the fields that were added last and
those that no edit is about. -/
theorem build_isOk_iff (defs : Dict Output) (name : String) (fields : List Field)
    (views : List (String × List FieldEdit)) :
    ((∃ b, build defs name fields views = .ok b) ↔
      (fields.map Field.name).Nodup ∧ Declarable views ∧ ∀ e ∈ views, Applicable fields e.2) ∧
    (∀ x, build defs name fields views = .error (.duplicateField x) →
      Field.checkDistinct fields = .error (.duplicateField x)) ∧
    ∀ b, build defs name fields views = .ok b →
      b.views.names = Dict.names views ∧
      ∀ e ∈ views, ∃ edited, edit fields e.2 = .ok edited ∧
        b.views.get? e.1 = some (.referenced (Field.object defs edited) (name ++ "." ++ e.1)) ∧
        (edited.map Field.name).Nodup ∧ Field.checkDistinct edited = .ok () ∧
        (∀ x, x ∈ edited.map Field.name ↔ (∃ f, lastEdit? e.2 x = some (.add f)) ∨
          lastEdit? e.2 x = none ∧ x ∈ fields.map Field.name) ∧
        ∀ f, f ∈ edited ↔ lastEdit? e.2 f.name = some (.add f) ∨
          lastEdit? e.2 f.name = none ∧ f ∈ fields := by
  refine ⟨exists_build_iff, fun _ => checkDistinct_of_build, fun b hb => ?_⟩
  obtain ⟨hfields, ⟨-, hnodup⟩, -, -, hshapes⟩ := build_eq_ok.1 hb
  refine ⟨hshapes.names, fun e he => ?_⟩
  obtain ⟨s, hs, hname, hshape⟩ := exists_of_forall₂_of_mem hshapes he
  obtain ⟨edited, hedited, hdistinct, hs'⟩ := viewShape_eq_ok.1 hshape
  refine ⟨edited, hedited, ?_, hdistinct, Field.checkDistinct_eq_ok.2 hdistinct,
    fun x => mem_names_edit hedited hfields, fun f => mem_edit hedited hfields⟩
  rw [← hs', Dict.get?_eq_some_iff (hshapes.names ▸ hnodup), ← hname]
  exact hs

end Build

end Blueprint

end JsonShape
