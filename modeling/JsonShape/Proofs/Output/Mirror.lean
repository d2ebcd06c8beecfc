import JsonShape.Proofs.Input.Components
import JsonShape.Proofs.Output.Components
import JsonShape.Proofs.Schema.Related

/-!
# The input that mirrors an output

An output without views describes one shape. Its mirror is the input of that shape: how a value is
read plays no part in it, neither the extractors of members nor the functions of mapped outputs.

* `Output.mirror` is the mirror, and `Output.Mirrored` says that it is faithful: nothing in the
  output depends on a view or on a definition, and inheritance lays objects over one another that
  share no key.
* `related_docWith`: an output and its mirror have the same documentation, with mirrored components.
* `components_mirror`: they list the same components.
-/

namespace JsonShape

namespace Output

variable [Regex.Engine]

mutual

/-- The input that accepts what an output writes. What an output writes that chooses among shapes
is not known; for the mirror it may be anything. -/
def mirror : Output → Input
  | .text format => .text format
  | .number => .number
  | .integer => .integer
  | .boolean => .boolean
  | .null => .null
  | .object properties => .object (mirrorProperties properties)
  | .merge parent child => .merge parent.mirror child.mirror
  | .list item => .list item.mirror
  | .optional inner => .optional inner.mirror
  | .described inner description => .described inner.mirror description
  | .referenced inner name => .referenced inner.mirror name
  | .viaMap inner _ => inner.mirror
  | .viewed _ _ _ | .cond _ _ _ | .chain _ _ | .defer _ _ => .any

/-- The members that accept what properties write. -/
def mirrorProperties : List (Property Output) → List (Member Input)
  | [] => []
  | ⟨key, _, value, required, description⟩ :: rest =>
    ⟨key, value.mirror, required, description⟩ :: mirrorProperties rest

end

/-- The keys that an object declares, those of a parent first, and none of what is no object. -/
def keys? : Output → Option (List String)
  | .object properties => some (properties.map Property.key)
  | .merge parent child => do
    let inherited ← parent.keys?
    let own ← child.keys?
    some (inherited ++ own)
  | .described inner _ | .referenced inner _ | .viaMap inner _ => inner.keys?
  | _ => none

mutual

/-- Nothing chooses among shapes, and an inheritance is one of objects that share no key
(`keys?`). -/
def Mirrored : Output → Prop
  | .object properties => MirroredProperties properties
  | .merge parent child => parent.Mirrored ∧ child.Mirrored ∧
    ∃ keys, keys? (.merge parent child) = some keys ∧ keys.Nodup
  | .list a | .optional a | .described a _ | .referenced a _ | .viaMap a _ => a.Mirrored
  | .viewed _ _ _ | .cond _ _ _ | .chain _ _ | .defer _ _ => False
  | _ => True

/-- The properties are mirrored. -/
def MirroredProperties : List (Property Output) → Prop
  | [] => True
  | ⟨_, _, value, _, _⟩ :: rest => value.Mirrored ∧ MirroredProperties rest

end

variable {o : Output}

/-- The member that accepts what a property writes. -/
def mirrorProperty (p : Property Output) : Member Input :=
  ⟨p.key, p.value.mirror, p.required, p.description⟩

theorem mirrorProperties_eq (properties : List (Property Output)) :
    mirrorProperties properties = properties.map mirrorProperty := by
  induction properties with
  | nil => rfl
  | cons p rest ih => exact congrArg (mirrorProperty p :: ·) ih

theorem mirror_object (properties : List (Property Output)) :
    mirror (.object properties) = .object (properties.map mirrorProperty) :=
  congrArg Input.object (mirrorProperties_eq properties)

omit [Regex.Engine] in
theorem mirroredProperties_iff {properties : List (Property Output)} :
    MirroredProperties properties ↔ ∀ p ∈ properties, p.value.Mirrored := by
  induction properties with
  | nil => exact iff_of_true trivial nofun
  | cons p rest ih =>
    rw [List.forall_mem_cons, ← ih]
    exact Iff.rfl

/-! ## Views -/

omit [Regex.Engine] in
/-- There is no view to select. -/
theorem viewWith_of_mirrored {selector : Selector} {view : String} (h : o.Mirrored) :
    viewWith selector o view = none := by
  induction o with
  | text _ | number | integer | boolean | null | object _ => rfl
  | merge parent child _ ih => exact ih h.2.1
  | list _ ih | optional _ ih | viaMap _ _ ih => rw [viewWith, ih h, Option.map_none]
  | described _ _ ih | referenced _ _ ih => exact ih h
  | viewed _ _ _ | cond _ _ _ | chain _ _ | defer _ _ => exact h.elim

omit [Regex.Engine] in
theorem baseOf_of_mirrored (defs : Dict Output) (h : o.Mirrored) : o.baseOf defs = o := by
  rw [baseOf, viewOf?, viewAt_eq, viewWith_of_mirrored h, Option.getD_none]

/-! ## Documentation -/

/-- The component of an input that mirrors that of an output. -/
def Mirrors (i : Input) (o : Output) : Prop := o.Mirrored ∧ i = o.mirror

/-- An output and its mirror are documented alike, whatever `documented` and `deferred` say of
definitions. -/
theorem related_docWith (documented : String → Doc Input) (deferred : Documenter)
    (h : o.Mirrored) :
    Doc.Related Mirrors (Input.docWith documented o.mirror) (docWith deferred o) := by
  induction o with
  | text format => cases format <;> exact Doc.related_plain _
  | number | integer | boolean | null => exact Doc.related_plain _
  | object properties ih =>
    rw [mirror_object, Input.docWith_object, docWith_object, List.map_map]
    refine Doc.related_record ?_
    rw [List.forall₂_map_left_iff, List.forall₂_map_right_iff, List.forall₂_same]
    intro p hp
    exact ⟨rfl, rfl, rfl, ih p hp (mirroredProperties_iff.1 h p hp)⟩
  | merge parent child ihp ihc =>
    exact Doc.related_combine (.cons (ihp h.1) (.cons (ihc h.2.1) .nil)) _
  | list item ih => exact (ih h).mapFragment _
  | optional inner ih => exact (ih h).mapFragment _
  | described inner text ih => exact (ih h).mapFragment (Fragment.described · text)
  | referenced inner name => exact Doc.related_reference name ⟨h, rfl⟩
  | viaMap inner f ih => exact ih h
  | viewed _ _ _ | cond _ _ _ | chain _ _ | defer _ _ => exact h.elim

theorem related_doc (idefs : Dict Input) (odefs : Dict Output) (h : o.Mirrored) :
    Doc.Related Mirrors (Input.doc idefs o.mirror) (doc odefs o) := by
  rw [Input.doc, Input.docAt_eq, doc, docAt_eq]
  exact related_docWith _ _ h

/-! ## Components -/

omit [Regex.Engine] in
theorem referenceCountProperties_eq (properties : List (Property Output)) :
    referenceCountProperties properties = total (fun p => p.value.referenceCount) properties := by
  induction properties with
  | nil => rfl
  | cons p rest ih => exact congrArg (p.value.referenceCount + ·) ih

/-- An output and its mirror name equally many components. -/
theorem referenceCount_mirror (h : o.Mirrored) : o.mirror.referenceCount = o.referenceCount := by
  induction o with
  | text _ | number | integer | boolean | null => rfl
  | object properties ih =>
    have hcount : List.Forall₂ (fun (m : Member Input) (p : Property Output) =>
        m.value.referenceCount = p.value.referenceCount) (properties.map mirrorProperty)
        properties := by
      rw [List.forall₂_map_left_iff, List.forall₂_same]
      exact fun p hp => ih p hp (mirroredProperties_iff.1 h p hp)
    rw [mirror_object]
    change Input.referenceCountMembers _ = referenceCountProperties properties
    rw [Input.referenceCountMembers_eq, referenceCountProperties_eq]
    exact total_of_forall₂ hcount fun _ _ h => h
  | merge parent child ihp ihc => exact congrArg₂ (· + ·) (ihp h.1) (ihc h.2.1)
  | list _ ih | optional _ ih | described _ _ ih | viaMap _ _ ih => exact ih h
  | referenced inner name ih => exact congrArg (· + 1) (ih h)
  | viewed _ _ _ | cond _ _ _ | chain _ _ | defer _ _ => exact h.elim

/-- What an output and its mirror mention names equally many components. -/
theorem total_found_mirror (idefs : Dict Input) (odefs : Dict Output) (h : o.Mirrored) :
    total (fun e => e.2.referenceCount + 1) (Input.doc idefs o.mirror).found =
      total (fun e => e.2.referenceCount + 1) (doc odefs o).found := by
  refine total_of_forall₂ (related_doc idefs odefs h).found fun e f hef => ?_
  obtain ⟨hmirrored, heq⟩ := hef.2
  rw [heq, referenceCount_mirror hmirrored]

/-- **An output and its mirror list the same components**, whatever definitions there are on either
side. -/
theorem components_mirror (idefs : Dict Input) (odefs : Dict Output) (h : o.Mirrored) :
    Input.components idefs [Input.doc idefs o.mirror] = components odefs [doc odefs o] := by
  -- definitions only allow more steps than are taken without any
  obtain ⟨cs, hcs, -⟩ := Input.exists_collect [] o.mirror
  let steps := Input.componentBound [] [Input.doc [] o.mirror]
  have hrelated : ∀ idefs odefs,
      Components.collect (m := Id) (fun i => pure (Input.doc idefs i)) steps
        [Input.doc idefs o.mirror] =
      Components.collect (m := Id) (fun o => pure (doc odefs o)) steps [doc odefs o] :=
    fun idefs odefs => Components.collect_eq_of_related
      (fun i q hq => hq.2 ▸ related_doc idefs odefs hq.1) (.cons (related_doc idefs odefs h) .nil)
  have houtput : Components.collect (m := Id) (fun o => pure (doc odefs o)) steps
      [doc odefs o] = some cs := (hrelated [] odefs).symm.trans hcs
  have hinput : Components.collect (m := Id) (fun i => pure (Input.doc idefs i)) steps
      [Input.doc idefs o.mirror] = some cs := (hrelated idefs odefs).trans houtput
  have hle : steps ≤ Input.componentBound idefs [Input.doc idefs o.mirror] := by
    have hfound := total_found_mirror idefs odefs h
    have hempty := total_found_mirror [] odefs h
    simp only [steps, Input.componentBound, total]
    omega
  have hle' : steps ≤ componentBound odefs [doc odefs o] := by
    have hempty := total_found_mirror [] odefs h
    simp only [steps, Input.componentBound, componentBound, total]
    omega
  have hcomponents : Input.components idefs [Input.doc idefs o.mirror] = cs :=
    congrArg (fun all => all.getD []) (Components.collect_mono hinput hle)
  have hcomponents' : components odefs [doc odefs o] = cs :=
    congrArg (fun all => all.getD []) (Components.collect_mono houtput hle')
  rw [hcomponents, hcomponents']

end Output

end JsonShape
