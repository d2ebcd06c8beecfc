import JsonShape.Output.Doc
import JsonShape.Proofs.Induction
import JsonShape.Proofs.Members
import JsonShape.Proofs.Schema.References

/-!
# The components of an output

The documentation of an output mentions components that the output names, or that a definition
does. A view that is selected names nothing new, so this stays true where the default view of a
definition is looked up.

* `found_of_closed`: what documentation mentions stays within a class that is closed under parts and
  lookups.
* `covers_docAt`: documentation mentions all that its fragment refers to.
* `referenceNames_of_resolve?`: a definition that is looked up names what the definitions name.
-/

namespace JsonShape

namespace Output

variable {defs : Dict Output} {o q : Output} {limit : Nat}

/-- Documentation of deferred definitions. -/
abbrev Documenter := (name : String) → (base : Bool) → Doc Output

variable {deferred : Documenter}

/-! ## Documentation node by node -/

/-- The shapes directly inside a shape. -/
def children : Output → List Output
  | .object properties => properties.map Property.value
  | .merge a b | .cond _ a b => [a, b]
  | .list a | .optional a | .described a _ | .referenced a _ | .viaMap a _ => [a]
  | .viewed earlier base later => Dict.values earlier ++ base :: Dict.values later
  | .chain base views => base :: Dict.values views
  | _ => []

theorem forall_mem_children_viewed {P : Output → Prop} {earlier later : Dict Output}
    {base : Output} : (∀ q ∈ children (.viewed earlier base later), P q) ↔
      (∀ e ∈ earlier, P e.2) ∧ P base ∧ ∀ e ∈ later, P e.2 := by
  rw [children, List.forall_mem_append, List.forall_mem_cons, Dict.values, Dict.values,
    List.forall_mem_map, List.forall_mem_map]

theorem forall_mem_children_chain {P : Output → Prop} {base : Output} {views : Dict Output} :
    (∀ q ∈ children (.chain base views), P q) ↔ P base ∧ ∀ e ∈ views, P e.2 := by
  rw [children, List.forall_mem_cons, Dict.values, List.forall_mem_map]

/-- Induction on shapes, all constructors at once. -/
theorem of_children {motive : Output → Prop} (h : ∀ o, (∀ q ∈ o.children, motive q) → motive o)
    (o : Output) : motive o := by
  induction o with
  | text _ | number | integer | boolean | null | defer _ _ => exact h _ nofun
  | object properties ih => exact h _ (List.forall_mem_map.2 ih)
  | merge a b iha ihb | cond _ a b iha ihb =>
    exact h _ (List.forall_mem_cons.2 ⟨iha, List.forall_mem_singleton.2 ihb⟩)
  | list a ih | optional a ih | described a _ ih | referenced a _ ih | viaMap a _ ih =>
    exact h _ (List.forall_mem_singleton.2 ih)
  | viewed earlier base later ihe ihb ihl =>
    exact h _ (forall_mem_children_viewed.2 ⟨ihe, ihb, ihl⟩)
  | chain base views ihb ihv => exact h _ (forall_mem_children_chain.2 ⟨ihb, ihv⟩)

/-- The documentation of a definition, looked up within a limit. -/
def docLookup (defs : Dict Output) (limit : Nat) : Documenter :=
  fun name base => docAt defs limit (.defer name base)

theorem docAt_eq (limit : Nat) (o : Output) :
    docAt defs limit o = docWith (docLookup defs limit) o := by
  cases limit <;> rfl

theorem docLookup_succ (limit : Nat) (name : String) (base : Bool) :
    docLookup defs (limit + 1) name base =
      match resolve? defs name base with
      | some o => docAt defs limit o
      | none => .plain (.object []) := rfl

/-- What documentation is like (`Q`), node by node and where there is none, it is like for whatever
is in a class (`P`) that lookups do not leave. -/
theorem docAt_of_closed {P : Output → Prop} {Q : Doc Output → Prop}
    (hdefer : ∀ name base o, P (.defer name base) → resolve? defs name base = some o → P o)
    (hempty : Q (.plain (.object [])))
    (hwith : ∀ {deferred : Documenter} {o : Output},
      (∀ name base, P (.defer name base) → Q (deferred name base)) → P o →
        Q (docWith deferred o))
    (h : P o) : Q (docAt defs limit o) := by
  induction limit generalizing o with
  | zero =>
    rw [docAt_eq]
    exact hwith (fun _ _ _ => hempty) h
  | succ limit ih =>
    rw [docAt_eq]
    refine hwith (fun name base hname => ?_) h
    rw [docLookup_succ]
    split
    · next q hq => exact ih (hdefer name base q hname hq)
    · exact hempty

theorem docAt_of_docWith {Q : Doc Output → Prop} (hempty : Q (.plain (.object [])))
    (hwith : ∀ deferred : Documenter, (∀ name base, Q (deferred name base)) →
      ∀ o, Q (docWith deferred o)) (limit : Nat) (o : Output) : Q (docAt defs limit o) :=
  docAt_of_closed (P := fun _ => True) (fun _ _ _ _ _ => trivial) hempty
    (fun hdeferred _ => hwith _ (fun name base => hdeferred name base trivial) _) trivial

/-- The declaration of a property with its documentation. -/
def withDoc (deferred : Documenter) (p : Property Output) : Member (Doc Output) :=
  ⟨p.key, docWith deferred p.value, p.required, p.description⟩

theorem docProperties_eq (deferred : Documenter) (properties : List (Property Output)) :
    docProperties deferred properties = properties.map (withDoc deferred) := by
  induction properties with
  | nil => rfl
  | cons p rest ih => exact congrArg (withDoc deferred p :: ·) ih

theorem docViews_eq (deferred : Documenter) (views : Dict Output) :
    docViews deferred views = views.values.map (docWith deferred) := by
  induction views with
  | nil => rfl
  | cons e rest ih => exact congrArg (docWith deferred e.2 :: ·) ih

theorem docWith_object (deferred : Documenter) (properties : List (Property Output)) :
    docWith deferred (.object properties) = .record (properties.map (withDoc deferred)) :=
  congrArg Doc.record (docProperties_eq deferred properties)

theorem docWith_viewed (deferred : Documenter) (earlier later : Dict Output) (base : Output) :
    docWith deferred (.viewed earlier base later) =
      .combine ((children (.viewed earlier base later)).map (docWith deferred))
        Fragment.oneOf := by
  rw [docWith, docViews_eq, docViews_eq, children, List.map_append, List.map_cons]

theorem docWith_chain (deferred : Documenter) (base : Output) (views : Dict Output) :
    docWith deferred (.chain base views) =
      .combine ((children (.chain base views)).map (docWith deferred)) Fragment.oneOf := by
  rw [docWith, docViews_eq, children, List.map_cons]

/-! ## What documentation mentions -/

/-- A class that has the parts of each shape in it. -/
def ClosedUnderParts (P : Output → Prop) : Prop := ∀ o q, P o → q ∈ o.children → P q

theorem found_docWith {P : Output → Prop} (hP : ClosedUnderParts P)
    (hdeferred : ∀ name base, P (.defer name base) →
      ∀ e ∈ (deferred name base).found, P (.referenced e.2 e.1))
    (h : P o) : ∀ e ∈ (docWith deferred o).found, P (.referenced e.2 e.1) := by
  have hcombine : ∀ (os : List Output) (f : List Json → Json),
      (∀ q ∈ os, ∀ e ∈ (docWith deferred q).found, P (.referenced e.2 e.1)) →
      ∀ e ∈ (Doc.combine (os.map (docWith deferred)) f).found, P (.referenced e.2 e.1) := by
    intro os f hos e he
    obtain ⟨d, hd, he⟩ := Doc.mem_found_combine he
    obtain ⟨q, hq, rfl⟩ := List.mem_map.1 hd
    exact hos q hq e he
  induction o with
  | text format => cases format <;> exact fun e he => absurd he List.not_mem_nil
  | number | integer | boolean | null => exact fun e he => absurd he List.not_mem_nil
  | object properties ih =>
    intro e he
    rw [docWith_object] at he
    obtain ⟨m, hm, he⟩ := Doc.mem_found_record he
    obtain ⟨p, hp, rfl⟩ := List.mem_map.1 (Member.mem_of_mem_distinct hm)
    exact ih p hp (hP _ _ h (List.mem_map_of_mem hp)) e he
  | merge a b iha ihb | cond _ a b iha ihb =>
    refine hcombine [a, b] _ fun q hq => ?_
    simp only [List.mem_cons, List.not_mem_nil, or_false] at hq
    rcases hq with rfl | rfl
    · exact iha (hP _ _ h (.head _))
    · exact ihb (hP _ _ h (.tail _ (.head _)))
  | list a ih | optional a ih | described a _ ih | viaMap a _ ih => exact ih (hP _ _ h (.head _))
  | referenced a name =>
    intro e he
    obtain rfl := List.mem_singleton.1 he
    exact h
  | viewed earlier base later ihe ihb ihl =>
    rw [docWith_viewed]
    obtain ⟨hearlier, hbase, hlater⟩ := forall_mem_children_viewed.1 fun q hq => hP _ q h hq
    refine hcombine _ _ (forall_mem_children_viewed.2 ⟨?_, ihb hbase, ?_⟩)
    · exact fun e he => ihe e he (hearlier e he)
    · exact fun e he => ihl e he (hlater e he)
  | chain base views ihb ihv =>
    rw [docWith_chain]
    obtain ⟨hbase, hviews⟩ := forall_mem_children_chain.1 fun q hq => hP _ q h hq
    refine hcombine _ _ (forall_mem_children_chain.2 ⟨ihb hbase, ?_⟩)
    exact fun e he => ihv e he (hviews e he)
  | defer name base => exact hdeferred name base h

/-- **What documentation mentions is within any class that is closed under parts and lookups**:
every component in `found` stands for a `referenced` node of the class. -/
theorem found_of_closed {P : Output → Prop} (hP : ClosedUnderParts P)
    (hdefer : ∀ name base o, P (.defer name base) → resolve? defs name base = some o → P o)
    (h : P o) : ∀ e ∈ (docAt defs limit o).found, P (.referenced e.2 e.1) :=
  docAt_of_closed (Q := fun d => ∀ e ∈ d.found, P (.referenced e.2 e.1)) hdefer
    (fun _ he => absurd he List.not_mem_nil) (found_docWith hP) h

/-! ## What fragments refer to -/

theorem covers_typed (name : String) : (typed name).Covers :=
  Doc.covers_of_remarks (by simp [Fragment.schemaKeys, Fragment.refKey, Dict.get?]) _

theorem covers_docWith (hdeferred : ∀ name base, (deferred name base).Covers) (o : Output) :
    (docWith deferred o).Covers := by
  have hunion : ∀ os : List Output, (∀ q ∈ os, (docWith deferred q).Covers) →
      (Doc.combine (os.map (docWith deferred)) Fragment.oneOf).Covers := by
    intro os hos
    exact Doc.covers_combine_oneOf (List.forall_mem_map.2 hos)
  induction o with
  | text format =>
    cases format with
    | none => exact covers_typed _
    | some format =>
      exact Doc.covers_of_remarks (by simp [Fragment.schemaKeys, Fragment.refKey, Dict.get?]) _
  | number | integer | boolean => exact covers_typed _
  | null =>
    exact Doc.covers_of_remarks (by simp [Fragment.schemaKeys, Fragment.refKey, Dict.get?]) _
  | object properties ih =>
    rw [docWith_object]
    refine Doc.covers_record fun m hm => ?_
    obtain ⟨p, hp, rfl⟩ := List.mem_map.1 hm
    exact ih p hp
  | merge a b iha ihb => exact Doc.covers_allOf iha ihb
  | cond _ a b iha ihb => exact Doc.covers_oneOf iha ihb
  | list a ih => exact ih.mapFragment fun _ _ => Fragment.Refers.of_array
  | optional a ih => exact ih.mapFragment fun _ _ => Fragment.Refers.of_nullable
  | viaMap a _ ih => exact ih
  | described a text ih => exact ih.described text
  | referenced a name => exact Doc.covers_reference name a
  | viewed earlier base later ihe ihb ihl =>
    rw [docWith_viewed]
    exact hunion _ (forall_mem_children_viewed.2 ⟨ihe, ihb, ihl⟩)
  | chain base views ihb ihv =>
    rw [docWith_chain]
    exact hunion _ (forall_mem_children_chain.2 ⟨ihb, ihv⟩)
  | defer name base => exact hdeferred name base

/-- The `found` list of documentation has all that its fragment refers to. -/
theorem covers_docAt (limit : Nat) (o : Output) : (docAt defs limit o).Covers :=
  docAt_of_docWith (Doc.covers_of_remarks (fun _ _ => rfl) _) (fun _ => covers_docWith) limit o

/-! ## The names of components -/

mutual

/-- The components that a tree names. -/
def referenceNames : Output → List String
  | .object properties => referenceNamesProperties properties
  | .merge a b | .cond _ a b => a.referenceNames ++ b.referenceNames
  | .list a | .optional a | .described a _ | .viaMap a _ => a.referenceNames
  | .referenced a name => name :: a.referenceNames
  | .viewed earlier base later =>
    referenceNamesViews earlier ++ (base.referenceNames ++ referenceNamesViews later)
  | .chain base views => base.referenceNames ++ referenceNamesViews views
  | _ => []

/-- The components that the properties name. -/
def referenceNamesProperties : List (Property Output) → List String
  | [] => []
  | ⟨_, _, value, _, _⟩ :: rest => value.referenceNames ++ referenceNamesProperties rest

/-- The components that the views name. -/
def referenceNamesViews : List (String × Output) → List String
  | [] => []
  | (_, o) :: rest => o.referenceNames ++ referenceNamesViews rest

end

theorem referenceNamesProperties_eq (properties : List (Property Output)) :
    referenceNamesProperties properties = properties.flatMap fun p => p.value.referenceNames := by
  induction properties with
  | nil => rfl
  | cons p rest ih => exact congrArg (p.value.referenceNames ++ ·) ih

theorem referenceNamesViews_eq (views : Dict Output) :
    referenceNamesViews views = views.flatMap fun e => e.2.referenceNames := by
  induction views with
  | nil => rfl
  | cons e rest ih => exact congrArg (e.2.referenceNames ++ ·) ih

theorem subset_referenceNamesViews {views : Dict Output} (h : q ∈ views.values) :
    q.referenceNames ⊆ referenceNamesViews views := by
  obtain ⟨e, he, rfl⟩ := List.mem_map.1 h
  rw [referenceNamesViews_eq]
  exact fun n hn => List.mem_flatMap.2 ⟨e, he, hn⟩

/-- A part names only what the whole does. -/
theorem referenceNames_subset (h : q ∈ o.children) : q.referenceNames ⊆ o.referenceNames := by
  cases o with
  | text _ | number | integer | boolean | null | defer _ _ => exact absurd h List.not_mem_nil
  | object properties =>
    obtain ⟨p, hp, rfl⟩ := List.mem_map.1 h
    change _ ⊆ referenceNamesProperties properties
    rw [referenceNamesProperties_eq]
    exact fun n hn => List.mem_flatMap.2 ⟨p, hp, hn⟩
  | merge a b | cond _ a b =>
    simp only [children, List.mem_cons, List.not_mem_nil, or_false] at h
    rcases h with rfl | rfl
    · exact List.subset_append_left _ _
    · exact List.subset_append_right _ _
  | list a | optional a | described a _ | viaMap a _ =>
    obtain rfl := List.mem_singleton.1 h
    exact List.Subset.refl _
  | referenced a name =>
    obtain rfl := List.mem_singleton.1 h
    exact List.subset_cons_self _ _
  | viewed earlier base later =>
    simp only [children, List.mem_append, List.mem_cons] at h
    intro n hn
    refine List.mem_append.2 ?_
    rcases h with h | rfl | h
    · exact Or.inl (subset_referenceNamesViews h hn)
    · exact Or.inr (List.mem_append_left _ hn)
    · exact Or.inr (List.mem_append_right _ (subset_referenceNamesViews h hn))
  | chain base views =>
    simp only [children, List.mem_cons] at h
    intro n hn
    refine List.mem_append.2 ?_
    rcases h with rfl | h
    · exact Or.inl hn
    · exact Or.inr (subset_referenceNamesViews h hn)

/-! ## Views -/

variable {names : List String} {view : String}

/-- What selects a view of a deferred definition. -/
abbrev Selector := (name : String) → (base : Bool) → (view : String) → Option Output

/-- The view of a definition, looked up within a limit. -/
def viewLookup (defs : Dict Output) (limit : Nat) : Selector :=
  fun name base view => viewAt defs limit (.defer name base) view

theorem viewAt_eq (limit : Nat) (o : Output) (view : String) :
    viewAt defs limit o view = viewWith (viewLookup defs limit) o view := by
  cases limit <;> rfl

theorem viewLookup_succ (limit : Nat) (name : String) (base : Bool) (view : String) :
    viewLookup defs (limit + 1) name base view = (defs.get? name).bind fun o =>
      viewAt defs limit (if base then (viewAt defs limit o baseView).getD o else o) view := rfl

theorem mem_values_of_get? {views : Dict Output} (h : views.get? view = some q) :
    q ∈ views.values :=
  List.mem_map_of_mem (f := Prod.snd) (Dict.mem_of_get? h)

/-- A view that is selected names what the whole does, or what `selector` answers. -/
theorem referenceNames_of_viewWith {selector : Selector}
    (hselector : ∀ name base view q, selector name base view = some q → q.referenceNames ⊆ names)
    (ho : o.referenceNames ⊆ names) (h : viewWith selector o view = some q) :
    q.referenceNames ⊆ names := by
  induction o generalizing q with
  | text _ | number | integer | boolean | null | object _ _ | cond _ _ _ _ _ =>
    exact absurd h (by simp [viewWith])
  | merge _ child _ ih =>
    exact ih (List.Subset.trans (referenceNames_subset (.tail _ (.head _))) ho) h
  | list a ih | optional a ih | viaMap a _ ih =>
    rw [viewWith, Option.map_eq_some_iff] at h
    obtain ⟨q', hq', rfl⟩ := h
    have hnames : q'.referenceNames ⊆ names := ih ho hq'
    exact hnames
  | described a _ ih => exact ih ho h
  | referenced a _ ih => exact ih (List.Subset.trans (referenceNames_subset (.head _)) ho) h
  | viewed earlier base later =>
    have hmem : q ∈ children (.viewed earlier base later) := by
      rw [viewWith] at h
      rw [children, List.mem_append, List.mem_cons]
      split at h
      · exact Or.inr (Or.inl (Option.some.inj h).symm)
      · have hq := mem_values_of_get? h
        rw [Dict.values, List.map_append, List.mem_append] at hq
        exact hq.imp_right Or.inr
    exact List.Subset.trans (referenceNames_subset hmem) ho
  | chain base views =>
    have hmem : q ∈ children (.chain base views) := by
      rw [viewWith] at h
      rw [children, List.mem_cons]
      split at h
      · exact Or.inl (Option.some.inj h).symm
      · exact Or.inr (mem_values_of_get? h)
    exact List.Subset.trans (referenceNames_subset hmem) ho
  | defer name base => exact hselector name base view q h

theorem referenceNames_of_viewAt (hdefs : ∀ e ∈ defs, e.2.referenceNames ⊆ names)
    (ho : o.referenceNames ⊆ names) (h : viewAt defs limit o view = some q) :
    q.referenceNames ⊆ names := by
  induction limit generalizing o q view with
  | zero =>
    rw [viewAt_eq] at h
    refine referenceNames_of_viewWith (fun name base view q hq => ?_) ho h
    cases hq
  | succ limit ih =>
    rw [viewAt_eq] at h
    refine referenceNames_of_viewWith (fun name base view q hq => ?_) ho h
    rw [viewLookup_succ, Option.bind_eq_some_iff] at hq
    obtain ⟨d, hd, hq⟩ := hq
    have hnames : d.referenceNames ⊆ names := hdefs _ (Dict.mem_of_get? hd)
    refine ih ?_ hq
    split
    · -- the default view of the definition, or the definition where it has none
      cases hbase : viewAt defs limit d baseView with
      | none => exact hnames
      | some b => exact ih hnames hbase
    · exact hnames

/-- A definition that is looked up, or its default view, names what the definitions name. -/
theorem referenceNames_of_resolve? {name : String} {base : Bool}
    (hdefs : ∀ e ∈ defs, e.2.referenceNames ⊆ names) (h : resolve? defs name base = some q) :
    q.referenceNames ⊆ names := by
  obtain ⟨d, hd, rfl⟩ := Option.map_eq_some_iff.1 h
  have hnames : d.referenceNames ⊆ names := hdefs _ (Dict.mem_of_get? hd)
  split
  · rw [baseOf, viewOf?]
    cases hbase : viewAt defs (lookupLimit defs) d baseView with
    | none => exact hnames
    | some b => exact referenceNames_of_viewAt hdefs hnames hbase
  · exact hnames

end Output

end JsonShape
