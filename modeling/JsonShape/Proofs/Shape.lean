import JsonShape.Output.Struct
import JsonShape.Proofs.Output.RoundTrip
import JsonShape.Regex.Pattern

/-!
# One shape, read and written

A shape that a program both reads and writes is declared twice, once as an input and once as an
output. The output may take its values from anywhere: members have extractors, and functions make
the value that is written. `Shape` is such a pair of declarations in one tree, and `Shape.input` and
`Shape.output` build its two sides.

* `Shape.Distinct`: the records of a shape, together with those they extend, declare no key twice.
* `Shape.exists_built`: such a shape is built, and its input is the mirror of its output.
* `Shape.parses_back`: both sides have the same documentation and the same components, and what is
  written is read back as it is.
-/

namespace JsonShape

/-- One level of an inheritance: a name, and the members declared under it. -/
structure Level (α : Type) where
  name : String
  own : List (Property α)

/-- A shape that is read and written. -/
inductive Shape
  | text (format : Option String)
  | number
  | integer
  | boolean
  | null
  | list (item : Shape)
  | optional (inner : Shape)
  | described (inner : Shape) (description : String)
  | referenced (inner : Shape) (name : String)
  /-- The inner shape; what is written is made by a function. -/
  | viaMap (inner : Shape) (f : Json → Json)
  | object (properties : List (Property Shape))
  /-- A record, and those that it extends: its parent, the parent of that, and so on. A member
  without an extractor is read from the member of its key. -/
  | record (name : String) (own : List (Property Shape)) (ancestors : List (Level Shape))

@[induction_eliminator]
theorem Shape.ind {motive : Shape → Prop} (text : ∀ format, motive (.text format))
    (number : motive .number) (integer : motive .integer) (boolean : motive .boolean)
    (null : motive .null) (list : ∀ item, motive item → motive (.list item))
    (optional : ∀ inner, motive inner → motive (.optional inner))
    (described : ∀ inner description, motive inner → motive (.described inner description))
    (referenced : ∀ inner name, motive inner → motive (.referenced inner name))
    (viaMap : ∀ inner f, motive inner → motive (.viaMap inner f))
    (object : ∀ properties, (∀ p ∈ properties, motive p.value) → motive (.object properties))
    (record : ∀ name own ancestors, (∀ p ∈ own, motive p.value) →
      (∀ l ∈ ancestors, ∀ p ∈ l.own, motive p.value) → motive (.record name own ancestors))
    (s : Shape) : motive s :=
  @Shape.rec motive (fun ps => ∀ p ∈ ps, motive p.value)
    (fun ls => ∀ l ∈ ls, ∀ p ∈ l.own, motive p.value) (fun p => motive p.value)
    (fun l => ∀ p ∈ l.own, motive p.value)
    text number integer boolean null list optional described referenced viaMap object record
    (List.forall_mem_nil _) (fun _ _ h hs => List.forall_mem_cons.2 ⟨h, hs⟩)
    (List.forall_mem_nil _) (fun _ _ h hs => List.forall_mem_cons.2 ⟨h, hs⟩)
    (fun _ _ _ _ _ h => h) (fun _ _ h => h) s

/-! ## The two sides -/

/-- Builds the record `name` over the records that it extends, the nearest first. -/
def InputStruct.ofLevels [Regex.Engine] (name : String) (own : List (Member Input)) :
    List (String × List (Member Input)) → Except DefinitionError InputStruct
  | [] => build name none own
  | (parent, members) :: rest => do
    let parent ← ofLevels parent members rest
    build name (some parent) own

/-- The field that a property declares. -/
def Property.field (p : Property Output) : Field :=
  ⟨p.key, .ready p.value, p.extract, p.description, p.required⟩

/-- Builds the record `name`, without views, over the records that it extends, the nearest first. -/
def OutputStruct.ofLevels (defs : Dict Output) (name : String) (own : List (Property Output)) :
    List (Level Output) → Except DefinitionError OutputStruct
  | [] => build defs name none (own.map Property.field) []
  | parent :: rest => do
    let parent ← ofLevels defs parent.name parent.own rest
    build defs name (some parent) (own.map Property.field) []

namespace Shape

variable [Regex.Engine]

mutual

/-- The input of a shape. -/
def input : Shape → Except DefinitionError Input
  | .text format => .ok (.text format)
  | .number => .ok .number
  | .integer => .ok .integer
  | .boolean => .ok .boolean
  | .null => .ok .null
  | .list item => item.input.map .list
  | .optional inner => inner.input.map .optional
  | .described inner description => inner.input.map (.described · description)
  | .referenced inner name => inner.input.map (.referenced · name)
  | .viaMap inner _ => inner.input
  | .object properties => (inputMembers properties).map .object
  | .record name own ancestors => do
    let own ← inputMembers own
    let ancestors ← inputLevels ancestors
    let record ← InputStruct.ofLevels name own ancestors
    .ok record.input

/-- The members of an input. -/
def inputMembers : List (Property Shape) → Except DefinitionError (List (Member Input))
  | [] => .ok []
  | ⟨key, _, value, required, description⟩ :: rest => do
    let value ← value.input
    let rest ← inputMembers rest
    .ok (⟨key, value, required, description⟩ :: rest)

/-- The names and the members of the levels of a record. -/
def inputLevels :
    List (Level Shape) → Except DefinitionError (List (String × List (Member Input)))
  | [] => .ok []
  | ⟨name, own⟩ :: rest => do
    let own ← inputMembers own
    let rest ← inputLevels rest
    .ok ((name, own) :: rest)

end

mutual

/-- The output of a shape. -/
def output (defs : Dict Output) : Shape → Except DefinitionError Output
  | .text format => .ok (.text format)
  | .number => .ok .number
  | .integer => .ok .integer
  | .boolean => .ok .boolean
  | .null => .ok .null
  | .list item => (item.output defs).map .list
  | .optional inner => (inner.output defs).map .optional
  | .described inner description => (inner.output defs).map (.described · description)
  | .referenced inner name => (inner.output defs).map (.referenced · name)
  | .viaMap inner f => (inner.output defs).map (.viaMap · f)
  | .object properties => (outputProperties defs properties).map .object
  | .record name own ancestors => do
    let own ← outputProperties defs own
    let ancestors ← outputLevels defs ancestors
    let record ← OutputStruct.ofLevels defs name own ancestors
    .ok record.output

/-- The properties of an output. -/
def outputProperties (defs : Dict Output) :
    List (Property Shape) → Except DefinitionError (List (Property Output))
  | [] => .ok []
  | ⟨key, extract, value, required, description⟩ :: rest => do
    let value ← value.output defs
    let rest ← outputProperties defs rest
    .ok (⟨key, extract, value, required, description⟩ :: rest)

/-- The levels of a record. -/
def outputLevels (defs : Dict Output) :
    List (Level Shape) → Except DefinitionError (List (Level Output))
  | [] => .ok []
  | ⟨name, own⟩ :: rest => do
    let own ← outputProperties defs own
    let rest ← outputLevels defs rest
    .ok (⟨name, own⟩ :: rest)

end

/-! ## Shapes that declare no key twice -/

/-- The keys of a record, those that it inherits first. -/
def recordKeys {α : Type} (own : List (Property α)) : List (Level α) → List String
  | [] => own.map Property.key
  | parent :: rest => recordKeys parent.own rest ++ own.map Property.key

mutual

/-- No record declares a key twice, which is what building it asks for, and none declares a key that
one of its `ancestors` does. -/
def Distinct : Shape → Prop
  | .list a | .optional a | .described a _ | .referenced a _ | .viaMap a _ => a.Distinct
  | .object properties => DistinctProperties properties
  | .record _ own ancestors =>
    (recordKeys own ancestors).Nodup ∧ DistinctProperties own ∧ DistinctLevels ancestors
  | _ => True

/-- The same for the values of properties. -/
def DistinctProperties : List (Property Shape) → Prop
  | [] => True
  | ⟨_, _, value, _, _⟩ :: rest => value.Distinct ∧ DistinctProperties rest

/-- The same for the members of levels. -/
def DistinctLevels : List (Level Shape) → Prop
  | [] => True
  | ⟨_, own⟩ :: rest => DistinctProperties own ∧ DistinctLevels rest

end

omit [Regex.Engine] in
theorem distinctProperties_iff {properties : List (Property Shape)} :
    DistinctProperties properties ↔ ∀ p ∈ properties, p.value.Distinct := by
  induction properties with
  | nil => exact iff_of_true trivial nofun
  | cons p rest ih =>
    rw [List.forall_mem_cons, ← ih]
    exact Iff.rfl

omit [Regex.Engine] in
theorem distinctLevels_iff {levels : List (Level Shape)} :
    DistinctLevels levels ↔ ∀ l ∈ levels, ∀ p ∈ l.own, p.value.Distinct := by
  induction levels with
  | nil => exact iff_of_true trivial nofun
  | cons l rest ih =>
    rw [List.forall_mem_cons, ← ih, ← distinctProperties_iff]
    exact Iff.rfl

end Shape

/-! ## Building records -/

/-- A record is built if and only if it declares no key of its own twice. What `parent` has may be
declared again. -/
theorem InputStruct.exists_build_iff [Regex.Engine] {members : List (Member Input)} {name : String}
    {parent : Option InputStruct} :
    (∃ i, build name parent members = .ok i) ↔ (Member.keys members).Nodup := by
  unfold build
  cases h : Member.firstRepeated? [] (Member.keys members) with
  | none => exact iff_of_true ⟨_, rfl⟩ (Member.firstRepeated?_eq_none.1 h).1
  | some key =>
    refine iff_of_false (fun ⟨_, hbuilt⟩ => by cases hbuilt) fun hnodup => ?_
    rw [Member.firstRepeated?_eq_none.2 ⟨hnodup, fun _ _ => List.not_mem_nil⟩] at h
    cases h

theorem InputStruct.build_of_nodup [Regex.Engine] {members : List (Member Input)} (name : String)
    (parent : Option InputStruct) (h : (Member.keys members).Nodup) :
    ∃ i, build name parent members = .ok i ∧ i.input = .referenced (match parent with
      | some parent => .merge parent.input (.object members)
      | none => .object members) name := by
  unfold build
  rw [Member.firstRepeated?_eq_none.2 ⟨h, fun _ _ => List.not_mem_nil⟩]
  exact ⟨_, rfl, rfl⟩

/-- The property with the extractor that its field has. -/
def Property.keyed (p : Property Output) : Property Output :=
  { p with extract := some (p.extract.getD fun v => v.getOrNull p.key) }

section record

variable {defs : Dict Output} {own : List (Property Output)}
  {ancestors : List (Level Output)}

theorem object_field (h : ∀ p ∈ own, p.value.Mirrored) :
    Field.object defs (own.map Property.field) = .object (own.map Property.keyed) := by
  refine congrArg Output.object ?_
  rw [List.map_map]
  refine List.map_congr_left fun p hp => ?_
  have hvalue : (Field.property defs p.field).value = p.value :=
    Output.baseOf_of_mirrored defs (h p hp)
  show (⟨_, _, (Field.property defs p.field).value, _, _⟩ : Property Output) = _
  rw [hvalue]
  rfl

theorem OutputStruct.build_of_nodup (defs : Dict Output) (name : String)
    (parent : Option OutputStruct)
    (hown : ∀ p ∈ own, p.value.Mirrored) (h : (own.map Property.key).Nodup) :
    ∃ o, build defs name parent (own.map Property.field) [] = .ok o ∧ o.output = o.base ∧
      o.base = .referenced (match parent with
        | some parent => .merge parent.base (.object (own.map Property.keyed))
        | none => .object (own.map Property.keyed)) name := by
  have hnames : (own.map Property.field).map Field.name = own.map Property.key := by
    rw [List.map_map]
    rfl
  have hcheck : Field.checkDistinct (own.map Property.field) = .ok () := by
    unfold Field.checkDistinct
    rw [hnames, Member.firstRepeated?_eq_none.2 ⟨h, fun _ _ => List.not_mem_nil⟩]
  unfold build
  rw [hcheck, object_field hown]
  exact ⟨_, rfl, rfl, rfl⟩

theorem mirror_keyed [Regex.Engine] (own : List (Property Output)) :
    Output.mirror (.object (own.map Property.keyed)) =
      .object (own.map Output.mirrorProperty) := by
  rw [Output.mirror_object, List.map_map]
  rfl

theorem mirrored_keyed (h : ∀ p ∈ own, p.value.Mirrored) :
    Output.Mirrored (.object (own.map Property.keyed)) :=
  Output.mirroredProperties_iff.2 (List.forall_mem_map.2 h)

theorem keys?_keyed (own : List (Property Output)) :
    Output.keys? (.object (own.map Property.keyed)) = some (own.map Property.key) := by
  show some ((own.map Property.keyed).map Property.key) = _
  rw [List.map_map]
  rfl

theorem nodup_keys_mirror [Regex.Engine] (h : (own.map Property.key).Nodup) :
    (Member.keys (own.map Output.mirrorProperty)).Nodup := by
  rw [Member.keys, List.map_map]
  exact h

/-- **A record that declares no key twice is built on both sides**, and its input is the
`Output.mirror` of its output. -/
theorem exists_ofLevels [Regex.Engine] (defs : Dict Output) (name : String)
    (hown : ∀ p ∈ own, p.value.Mirrored)
    (hancestors : ∀ l ∈ ancestors, ∀ p ∈ l.own, p.value.Mirrored)
    (hkeys : (Shape.recordKeys own ancestors).Nodup) :
    ∃ i o, InputStruct.ofLevels name (own.map Output.mirrorProperty)
        (ancestors.map fun l => (l.name, l.own.map Output.mirrorProperty)) = .ok i ∧
      OutputStruct.ofLevels defs name own ancestors = .ok o ∧ o.output = o.base ∧
      i.input = o.base.mirror ∧ o.base.Mirrored ∧
      o.base.keys? = some (Shape.recordKeys own ancestors) := by
  induction ancestors generalizing name own with
  | nil =>
    obtain ⟨o, ho, houtput, hbase⟩ := OutputStruct.build_of_nodup defs name none hown hkeys
    obtain ⟨i, hi, hinput⟩ := InputStruct.build_of_nodup name none (nodup_keys_mirror hkeys)
    refine ⟨i, o, hi, ho, houtput, ?_, ?_, ?_⟩
    · rw [hinput, hbase]
      exact congrArg (Input.referenced · name) (mirror_keyed own).symm
    · rw [hbase]
      exact mirrored_keyed hown
    · rw [hbase]
      exact keys?_keyed own
  | cons parent rest ih =>
    obtain ⟨hinherited, hnodup, -⟩ := List.nodup_append.1 hkeys
    obtain ⟨hparent, hrest⟩ := List.forall_mem_cons.1 hancestors
    obtain ⟨pi, po, hpi, hpo, -, hmirror, hmirrored, hparentKeys⟩ :=
      ih parent.name hparent hrest hinherited
    obtain ⟨o, ho, houtput, hbase⟩ :=
      OutputStruct.build_of_nodup defs name (some po) hown hnodup
    obtain ⟨i, hi, hinput⟩ :=
      InputStruct.build_of_nodup name (some pi) (nodup_keys_mirror hnodup)
    have hkeys? : Output.keys? (.merge po.base (.object (own.map Property.keyed))) =
        some (Shape.recordKeys own (parent :: rest)) := by
      rw [Output.keys?, hparentKeys, keys?_keyed]
      rfl
    refine ⟨i, o, Except.bind_eq_ok.2 ⟨pi, hpi, hi⟩, Except.bind_eq_ok.2 ⟨po, hpo, ho⟩, houtput,
      ?_, ?_, ?_⟩
    · rw [hinput, hbase, Output.mirror, Output.mirror, ← hmirror, mirror_keyed]
    · rw [hbase]
      exact ⟨hmirrored, mirrored_keyed hown, _, hkeys?, hkeys⟩
    · rw [hbase]
      exact hkeys?

end record

namespace Shape

variable [Regex.Engine] {defs : Dict Output}

/-- Both sides of a shape are built, and the input is the `Output.mirror` of the output. -/
def Built (defs : Dict Output) (s : Shape) : Prop :=
  ∃ o, s.output defs = .ok o ∧ s.input = .ok o.mirror ∧ o.Mirrored

/-- A shape around another one is built like it. -/
theorem Built.wrap {s t : Shape} {f : Output → Output} {g : Input → Input} (h : s.Built defs)
    (houtput : t.output defs = (s.output defs).map f) (hinput : t.input = s.input.map g)
    (hmirror : ∀ o, (f o).mirror = g o.mirror) (hmirrored : ∀ o, o.Mirrored → (f o).Mirrored) :
    t.Built defs := by
  obtain ⟨o, ho, hi, ho'⟩ := h
  refine ⟨f o, ?_, ?_, hmirrored o ho'⟩
  · rw [houtput, ho]
    rfl
  · rw [hinput, hi, hmirror]
    rfl

theorem exists_properties {properties : List (Property Shape)}
    (h : ∀ p ∈ properties, p.value.Built defs) :
    ∃ qs, outputProperties defs properties = .ok qs ∧
      inputMembers properties = .ok (qs.map Output.mirrorProperty) ∧
      (∀ q ∈ qs, q.value.Mirrored) ∧ qs.map Property.key = properties.map Property.key := by
  induction properties with
  | nil => exact ⟨[], rfl, rfl, nofun, rfl⟩
  | cons p rest ih =>
    obtain ⟨key, extract, value, required, description⟩ := p
    obtain ⟨hvalue, hrest⟩ := List.forall_mem_cons.1 h
    obtain ⟨o, ho, hi, hmirrored⟩ := hvalue
    obtain ⟨qs, hqs, hms, hall, hkeys⟩ := ih hrest
    refine ⟨⟨key, extract, o, required, description⟩ :: qs, ?_, ?_,
      List.forall_mem_cons.2 ⟨hmirrored, hall⟩, congrArg (key :: ·) hkeys⟩
    · exact Except.bind_eq_ok.2 ⟨o, ho, Except.bind_eq_ok.2 ⟨qs, hqs, rfl⟩⟩
    · exact Except.bind_eq_ok.2 ⟨_, hi, Except.bind_eq_ok.2 ⟨_, hms, rfl⟩⟩

theorem exists_levels {levels : List (Level Shape)}
    (h : ∀ l ∈ levels, ∀ p ∈ l.own, p.value.Built defs) :
    ∃ qs : List (Level Output), outputLevels defs levels = .ok qs ∧
      inputLevels levels = .ok (qs.map fun l => (l.name, l.own.map Output.mirrorProperty)) ∧
      (∀ l ∈ qs, ∀ q ∈ l.own, q.value.Mirrored) ∧
      qs.map (fun l => l.own.map Property.key) = levels.map fun l => l.own.map Property.key := by
  induction levels with
  | nil => exact ⟨[], rfl, rfl, nofun, rfl⟩
  | cons l rest ih =>
    obtain ⟨name, own⟩ := l
    obtain ⟨hown, hrest⟩ := List.forall_mem_cons.1 h
    obtain ⟨ps, hps, hms, hmirrored, hkeys⟩ := exists_properties hown
    obtain ⟨qs, hqs, hls, hall, hrestKeys⟩ := ih hrest
    refine ⟨⟨name, ps⟩ :: qs, ?_, ?_, List.forall_mem_cons.2 ⟨hmirrored, hall⟩,
      congrArg₂ List.cons hkeys hrestKeys⟩
    · exact Except.bind_eq_ok.2 ⟨ps, hps, Except.bind_eq_ok.2 ⟨qs, hqs, rfl⟩⟩
    · exact Except.bind_eq_ok.2 ⟨_, hms, Except.bind_eq_ok.2 ⟨_, hls, rfl⟩⟩

omit [Regex.Engine] in
/-- The keys of a record depend on those of its levels only. -/
theorem recordKeys_congr {α β : Type} {own : List (Property α)} {own' : List (Property β)}
    {ancestors : List (Level α)} {ancestors' : List (Level β)}
    (hown : own.map Property.key = own'.map Property.key)
    (h : ancestors.map (fun l => l.own.map Property.key) =
      ancestors'.map fun l => l.own.map Property.key) :
    recordKeys own ancestors = recordKeys own' ancestors' := by
  induction ancestors generalizing own own' ancestors' with
  | nil =>
    obtain rfl : ancestors' = [] := List.map_eq_nil_iff.1 h.symm
    exact hown
  | cons parent rest ih =>
    cases ancestors' with
    | nil => cases h
    | cons parent' rest' =>
      obtain ⟨hparent, hrest⟩ := List.cons.inj h
      rw [recordKeys, recordKeys, hown, ih hparent hrest]

/-- **A shape that declares no key twice is built**, on both sides and whatever the definitions
are. -/
theorem Distinct.built {s : Shape} (h : s.Distinct) (defs : Dict Output) : s.Built defs := by
  induction s with
  | text format => exact ⟨.text format, rfl, rfl, trivial⟩
  | number => exact ⟨.number, rfl, rfl, trivial⟩
  | integer => exact ⟨.integer, rfl, rfl, trivial⟩
  | boolean => exact ⟨.boolean, rfl, rfl, trivial⟩
  | null => exact ⟨.null, rfl, rfl, trivial⟩
  | list item ih => exact (ih h).wrap rfl rfl (fun _ => rfl) fun _ h => h
  | optional inner ih => exact (ih h).wrap rfl rfl (fun _ => rfl) fun _ h => h
  | described inner description ih => exact (ih h).wrap rfl rfl (fun _ => rfl) fun _ h => h
  | referenced inner name ih => exact (ih h).wrap rfl rfl (fun _ => rfl) fun _ h => h
  | viaMap inner f ih =>
    -- the input has no trace of the function
    obtain ⟨o, ho, hi, hmirrored⟩ := ih h
    exact ⟨.viaMap o f, Except.map_eq_ok.2 ⟨o, ho, rfl⟩, hi, hmirrored⟩
  | object properties ih =>
    obtain ⟨qs, hqs, hms, hmirrored, -⟩ :=
      exists_properties fun p hp => ih p hp (distinctProperties_iff.1 h p hp)
    refine ⟨.object qs, Except.map_eq_ok.2 ⟨qs, hqs, rfl⟩, ?_,
      Output.mirroredProperties_iff.2 hmirrored⟩
    rw [Output.mirror_object]
    exact Except.map_eq_ok.2 ⟨_, hms, rfl⟩
  | record name own ancestors ihOwn ihAncestors =>
    obtain ⟨hkeys, hown, hancestors⟩ := h
    obtain ⟨ps, hps, hms, hmirrored, hownKeys⟩ :=
      exists_properties fun p hp => ihOwn p hp (distinctProperties_iff.1 hown p hp)
    obtain ⟨qs, hqs, hls, hall, hlevelKeys⟩ := exists_levels fun l hl p hp =>
      ihAncestors l hl p hp (distinctLevels_iff.1 hancestors l hl p hp)
    obtain ⟨i, o, hi, ho, houtput, hmirror, hbase, -⟩ := exists_ofLevels defs name
      hmirrored hall (recordKeys_congr hownKeys hlevelKeys ▸ hkeys)
    refine ⟨o.output, ?_, ?_, houtput ▸ hbase⟩
    · exact Except.bind_eq_ok.2 ⟨ps, hps, Except.bind_eq_ok.2 ⟨qs, hqs,
        Except.bind_eq_ok.2 ⟨o, ho, rfl⟩⟩⟩
    · rw [houtput, ← hmirror]
      exact Except.bind_eq_ok.2 ⟨_, hms, Except.bind_eq_ok.2 ⟨_, hls,
        Except.bind_eq_ok.2 ⟨i, hi, rfl⟩⟩⟩

/-! ## Reading back what is written -/

/-- **Serialized values parse back.** A shape that declares no key twice is built on both sides, `i`
to read and `o` to write; the two have the same fragment and the same components. Whatever value is
written, wherever its members are read from, and for every view and limit: where `o` reports `w`,
`i` accepts `w` and does not change it. -/
theorem parses_back (s : Shape) (h : s.Distinct) (idefs : Dict Input) (odefs : Dict Output) :
    ∃ i o, s.input = .ok i ∧ s.output odefs = .ok o ∧
      (Input.doc idefs i).fragment = (Output.doc odefs o).fragment ∧
      Input.components idefs [Input.doc idefs i] = Output.components odefs [Output.doc odefs o] ∧
      ∀ view v w, Output.report odefs o view v = some (.ok w) →
        Input.call idefs i w = some (.ok w) := by
  obtain ⟨o, ho, hi, hmirrored⟩ := h.built odefs
  exact ⟨o.mirror, o, hi, ho, (Output.related_doc idefs odefs hmirrored).fragment,
    Output.components_mirror idefs odefs hmirrored,
    fun view v w hw => Output.call_of_report_mirror idefs odefs hmirrored view hw⟩

end Shape

namespace Shape

attribute [local instance] Regex.Engine.standard

/-- A record over another one: a member that is absent, one that is read from elsewhere, and one
that a function makes. -/
theorem parses_back_staff :
    let person : Level Shape := ⟨"Person", [
      ⟨"id", none, .integer, true, none⟩,
      ⟨"alias", some (·.getOrNull "name"), .referenced (.text none) "Name", true, some "short"⟩]⟩
    let staff : Shape := .record "Staff" [
      ⟨"salary", none, .optional .number, false, none⟩,
      ⟨"team", some id, .viaMap (.list (.text none)) fun v => .array [v.getOrNull "name"],
        true, none⟩] [person]
    let bob : Json := .object [("name", .string "Bob"), ("secret", .bool true),
      ("id", .number (.int 7))]
    let written : Json := .object [("id", .number (.int 7)), ("alias", .string "Bob"),
      ("team", .array [.string "Bob"])]
    staff.Distinct ∧ ∃ i o, staff.input = .ok i ∧ staff.output [] = .ok o ∧
      (Input.doc [] i).fragment = (Output.doc [] o).fragment ∧
      Input.components [] [Input.doc [] i] = Output.components [] [Output.doc [] o] ∧
      Output.report [] o none bob = some (.ok written) ∧
      Input.call [] i written = some (.ok written) := by
  intro person staff bob written
  have hdistinct : staff.Distinct :=
    ⟨by decide, ⟨trivial, trivial, trivial⟩, ⟨trivial, trivial, trivial⟩, trivial⟩
  obtain ⟨i, o, hi, ho, hfragment, hcomponents, hback⟩ := parses_back staff hdistinct [] []
  have hreport : Output.report [] o none bob = some (.ok written) := by
    obtain rfl := Except.ok.inj ho
    rfl
  exact ⟨hdistinct, i, o, hi, ho, hfragment, hcomponents, hreport, hback none bob written hreport⟩

end Shape

end JsonShape
