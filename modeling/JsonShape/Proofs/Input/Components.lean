import JsonShape.Input.Doc
import JsonShape.Proofs.Induction
import JsonShape.Proofs.Members
import JsonShape.Proofs.Schema.Collect
import JsonShape.Proofs.Schema.References

/-!
# The components of an input

The documentation of an input mentions the components that the input names, and the documentation
of those mentions more of them. All of them lie within the input, and there are finitely many, so
that collecting them is done before the steps run out.

* `Input.Within` is the closure of an input under parts and lookups.
* `found_of_closed`: what documentation mentions stays within a class that is closed so.
* `covers_docAt`: documentation mentions all that its fragment refers to.
* `components_closed`: every component that is mentioned is listed as its producer documents it.
-/

namespace JsonShape

namespace Input

variable [Regex.Engine]

/-! ## Within an input -/

/-- The shapes directly inside a shape. -/
def children : Input → List Input
  | .object members => members.map Member.value
  | .merge a b | .either a b => [a, b]
  | .list a | .optional a | .enum a _ | .pattern a _ | .inRange a _ | .multipleOf a _
  | .mapped a _ | .described a _ | .referenced a _ => [a]
  | _ => []

/-- Induction on shapes, all constructors at once. -/
theorem of_children {motive : Input → Prop} (h : ∀ i, (∀ j ∈ i.children, motive j) → motive i)
    (i : Input) : motive i := by
  induction i with
  | text _ | number | integer | boolean | null | any | defer _ => exact h _ nofun
  | object members ih => exact h _ (List.forall_mem_map.2 ih)
  | merge a b iha ihb | either a b iha ihb =>
    exact h _ (List.forall_mem_cons.2 ⟨iha, List.forall_mem_singleton.2 ihb⟩)
  | list a ih | optional a ih | enum a _ ih | pattern a _ ih | inRange a _ ih | multipleOf a _ ih
  | mapped a _ ih | described a _ ih | referenced a _ ih =>
    exact h _ (List.forall_mem_singleton.2 ih)

/-- The shapes inside `root`, at any depth and through lookups in `defs`. -/
inductive Within (defs : Dict Input) (root : Input) : Input → Prop
  | root : Within defs root root
  | child {i j : Input} (h : Within defs root i) (hj : j ∈ i.children) : Within defs root j
  | defer {name : String} {i : Input} (h : Within defs root (.defer name))
    (hi : defs.get? name = some i) : Within defs root i

variable {defs : Dict Input} {root i j : Input} {name : String} {limit : Nat}

/-- Whatever is `Within` an input lies in each list that has it and the definitions, and the parts
of its members. -/
theorem Within.mem_of_closed {inside : List Input} (hroot : root ∈ inside)
    (hparts : ∀ i ∈ inside, ∀ j ∈ i.children, j ∈ inside) (hdefs : ∀ e ∈ defs, e.2 ∈ inside)
    (h : Within defs root i) : i ∈ inside := by
  induction h with
  | root => exact hroot
  | child _ hj ih => exact hparts _ ih _ hj
  | defer _ hi _ => exact hdefs _ (Dict.mem_of_get? hi)

/-! ## Documentation node by node -/

/-- The documentation of a definition, looked up within a limit. -/
def docLookup (defs : Dict Input) (limit : Nat) (name : String) : Doc Input :=
  docAt defs limit (.defer name)

theorem docAt_eq (limit : Nat) (i : Input) :
    docAt defs limit i = docWith (docLookup defs limit) i := by
  cases limit <;> rfl

theorem docLookup_succ (limit : Nat) (name : String) : docLookup defs (limit + 1) name =
    match defs.get? name with
    | some i => docAt defs limit i
    | none => .plain (.object []) := rfl

/-- What documentation is like (`Q`), node by node and where there is none, it is like for whatever
is in a class (`P`) that lookups do not leave. -/
theorem docAt_of_closed {P : Input → Prop} {Q : Doc Input → Prop}
    (hdefer : ∀ name i, P (.defer name) → defs.get? name = some i → P i)
    (hempty : Q (.plain (.object [])))
    (hwith : ∀ {deferred : String → Doc Input} {i : Input},
      (∀ name, P (.defer name) → Q (deferred name)) → P i → Q (docWith deferred i))
    (h : P i) : Q (docAt defs limit i) := by
  induction limit generalizing i with
  | zero =>
    rw [docAt_eq]
    exact hwith (fun _ _ => hempty) h
  | succ limit ih =>
    rw [docAt_eq]
    refine hwith (fun name hname => ?_) h
    rw [docLookup_succ]
    split
    · next j hj => exact ih (hdefer name j hname hj)
    · exact hempty

theorem docAt_of_docWith {Q : Doc Input → Prop} (hempty : Q (.plain (.object [])))
    (hwith : ∀ deferred : String → Doc Input, (∀ name, Q (deferred name)) →
      ∀ i, Q (docWith deferred i)) (limit : Nat) (i : Input) : Q (docAt defs limit i) :=
  docAt_of_closed (P := fun _ => True) (fun _ _ _ _ => trivial) hempty
    (fun hdeferred _ => hwith _ (fun name => hdeferred name trivial) _) trivial

/-- The declaration of a member with its documentation. -/
def withDoc (deferred : String → Doc Input) (m : Member Input) : Member (Doc Input) :=
  ⟨m.key, docWith deferred m.value, m.required, m.description⟩

theorem docMembers_eq (deferred : String → Doc Input) (members : List (Member Input)) :
    docMembers deferred members = members.map (withDoc deferred) := by
  induction members with
  | nil => rfl
  | cons m rest ih => exact congrArg (withDoc deferred m :: ·) ih

theorem docWith_object (deferred : String → Doc Input) (members : List (Member Input)) :
    docWith deferred (.object members) = .record (members.map (withDoc deferred)) :=
  congrArg Doc.record (docMembers_eq deferred members)

theorem distinct_withDoc (deferred : String → Doc Input) (members : List (Member Input)) :
    Member.distinct (members.map (withDoc deferred)) =
      (Member.distinct members).map (withDoc deferred) :=
  Member.distinct_map_of_key (g := withDoc deferred) (fun _ => rfl) members

/-! ## What documentation mentions -/

/-- A class that has the parts of each shape in it. -/
def ClosedUnderParts (P : Input → Prop) : Prop := ∀ i j, P i → j ∈ i.children → P j

theorem found_docWith {P : Input → Prop} (hP : ClosedUnderParts P)
    {deferred : String → Doc Input}
    (hdeferred : ∀ name, P (.defer name) → ∀ e ∈ (deferred name).found, P (.referenced e.2 e.1))
    (h : P i) : ∀ e ∈ (docWith deferred i).found, P (.referenced e.2 e.1) := by
  induction i with
  | text format => cases format <;> exact fun e he => absurd he List.not_mem_nil
  | number | integer | boolean | null | any => exact fun e he => absurd he List.not_mem_nil
  | object members ih =>
    intro e he
    rw [docWith_object] at he
    obtain ⟨d, hd, he⟩ := Doc.mem_found_record he
    rw [distinct_withDoc] at hd
    obtain ⟨m, hm, rfl⟩ := List.mem_map.1 hd
    have hmem := Member.mem_of_mem_distinct hm
    exact ih m hmem (hP _ _ h (List.mem_map_of_mem hmem)) e he
  | merge a b iha ihb | either a b iha ihb =>
    intro e he
    obtain ⟨d, hd, he⟩ := Doc.mem_found_combine he
    simp only [List.mem_cons, List.not_mem_nil, or_false] at hd
    rcases hd with rfl | rfl
    · exact iha (hP _ _ h (.head _)) e he
    · exact ihb (hP _ _ h (.tail _ (.head _))) e he
  | list a ih | optional a ih | enum a _ ih | pattern a _ ih | inRange a _ ih | multipleOf a _ ih
  | mapped a _ ih | described a _ ih => exact ih (hP _ _ h (.head _))
  | referenced a name =>
    intro e he
    obtain rfl := List.mem_singleton.1 he
    exact h
  | defer name => exact hdeferred name h

/-- **What documentation mentions is within any class that is closed under parts and lookups**:
every component in `found` stands for a `referenced` node of the class. -/
theorem found_of_closed {P : Input → Prop} (hP : ClosedUnderParts P)
    (hdefer : ∀ name i, P (.defer name) → defs.get? name = some i → P i) (h : P i) :
    ∀ e ∈ (docAt defs limit i).found, P (.referenced e.2 e.1) :=
  docAt_of_closed (Q := fun d => ∀ e ∈ d.found, P (.referenced e.2 e.1)) hdefer
    (fun _ he => absurd he List.not_mem_nil) (found_docWith hP) h

/-! ## What fragments refer to -/

theorem covers_typed (name : String) : (typed name).Covers :=
  Doc.covers_of_remarks (by simp [Fragment.schemaKeys, Fragment.refKey, Dict.get?]) _

theorem covers_docWith {deferred : String → Doc Input}
    (hdeferred : ∀ name, (deferred name).Covers) (i : Input) : (docWith deferred i).Covers := by
  induction i with
  | text format =>
    cases format with
    | none => exact covers_typed _
    | some format =>
      exact Doc.covers_of_remarks (by simp [Fragment.schemaKeys, Fragment.refKey, Dict.get?]) _
  | number | integer | boolean => exact covers_typed _
  | null | any =>
    exact Doc.covers_of_remarks (by simp [Fragment.schemaKeys, Fragment.refKey, Dict.get?]) _
  | object members ih =>
    rw [docWith_object]
    refine Doc.covers_record fun n hn => ?_
    obtain ⟨m, hm, rfl⟩ := List.mem_map.1 hn
    exact ih m hm
  | merge a b iha ihb => exact Doc.covers_allOf iha ihb
  | either a b iha ihb => exact Doc.covers_oneOf iha ihb
  | list a ih => exact ih.mapFragment fun _ _ => Fragment.Refers.of_array
  | optional a ih => exact ih.mapFragment fun _ _ => Fragment.Refers.of_nullable
  | enum a _ ih | pattern a _ ih | multipleOf a _ ih =>
    exact ih.merge (Fragment.remarks_singleton (by simp [Fragment.schemaKeys, Fragment.refKey]))
  | inRange a interval ih => exact ih.merge (Fragment.remarks_keywords interval)
  | mapped a _ ih => exact ih
  | described a text ih => exact ih.described text
  | referenced a name => exact Doc.covers_reference name a
  | defer name => exact hdeferred name

/-- The `found` list of documentation has all that its fragment refers to. -/
theorem covers_docAt (limit : Nat) (i : Input) : (docAt defs limit i).Covers :=
  docAt_of_docWith (Doc.covers_of_remarks (fun _ _ => rfl) _) (fun _ => covers_docWith) limit i

/-! ## The names of components -/

mutual

/-- The components that a tree names. -/
def referenceNames : Input → List String
  | .object members => referenceNamesMembers members
  | .merge a b | .either a b => a.referenceNames ++ b.referenceNames
  | .list a | .optional a | .enum a _ | .pattern a _ | .inRange a _ | .multipleOf a _
  | .mapped a _ | .described a _ => a.referenceNames
  | .referenced a name => name :: a.referenceNames
  | _ => []

/-- The components that the members name. -/
def referenceNamesMembers : List (Member Input) → List String
  | [] => []
  | ⟨_, value, _, _⟩ :: rest => value.referenceNames ++ referenceNamesMembers rest

end

theorem referenceNamesMembers_eq (members : List (Member Input)) :
    referenceNamesMembers members = members.flatMap fun m => m.value.referenceNames := by
  induction members with
  | nil => rfl
  | cons m rest ih => exact congrArg (m.value.referenceNames ++ ·) ih

theorem referenceCountMembers_eq (members : List (Member Input)) :
    referenceCountMembers members = total (fun m => m.value.referenceCount) members := by
  induction members with
  | nil => rfl
  | cons m rest ih => exact congrArg (m.value.referenceCount + ·) ih

theorem length_referenceNames (i : Input) : i.referenceNames.length = i.referenceCount := by
  induction i with
  | text _ | number | integer | boolean | null | any | defer _ => rfl
  | object members ih =>
    change (referenceNamesMembers members).length = referenceCountMembers members
    rw [referenceNamesMembers_eq, referenceCountMembers_eq, length_flatMap_eq_total]
    exact Nat.le_antisymm (total_mono fun m hm => (ih m hm).le)
      (total_mono fun m hm => (ih m hm).ge)
  | merge a b iha ihb | either a b iha ihb =>
    change (a.referenceNames ++ b.referenceNames).length = a.referenceCount + b.referenceCount
    rw [List.length_append, iha, ihb]
  | list a ih | optional a ih | enum a _ ih | pattern a _ ih | inRange a _ ih | multipleOf a _ ih
  | mapped a _ ih | described a _ ih => exact ih
  | referenced a name ih => exact congrArg (· + 1) ih

/-- A part names only what the whole does. -/
theorem referenceNames_subset (h : j ∈ i.children) : j.referenceNames ⊆ i.referenceNames := by
  cases i with
  | text _ | number | integer | boolean | null | any | defer _ => exact absurd h List.not_mem_nil
  | object members =>
    obtain ⟨m, hm, rfl⟩ := List.mem_map.1 h
    change _ ⊆ referenceNamesMembers members
    rw [referenceNamesMembers_eq]
    exact fun n hn => List.mem_flatMap.2 ⟨m, hm, hn⟩
  | merge a b | either a b =>
    simp only [children, List.mem_cons, List.not_mem_nil, or_false] at h
    rcases h with rfl | rfl
    · exact List.subset_append_left _ _
    · exact List.subset_append_right _ _
  | list a | optional a | enum a _ | pattern a _ | inRange a _ | multipleOf a _ | mapped a _
  | described a _ =>
    obtain rfl := List.mem_singleton.1 h
    exact List.Subset.refl _
  | referenced a name =>
    obtain rfl := List.mem_singleton.1 h
    exact List.subset_cons_self _ _

/-- The names that definitions and some documentation can mention. -/
def mentionable (defs : Dict Input) (d : Doc Input) : List String :=
  defs.flatMap (fun e => e.2.referenceNames) ++ d.found.flatMap fun e => e.1 :: e.2.referenceNames

theorem length_mentionable_le (d : Doc Input) :
    (mentionable defs d).length ≤ componentBound defs [d] := by
  have hdefs : (defs.flatMap fun e => e.2.referenceNames).length ≤
      total (fun e => e.2.referenceCount + 1) defs := by
    rw [length_flatMap_eq_total]
    exact total_mono fun e _ => Nat.le_succ_of_le (length_referenceNames e.2).le
  have hfound : (d.found.flatMap fun e => e.1 :: e.2.referenceNames).length ≤
      total (fun e => e.2.referenceCount + 1) d.found := by
    rw [length_flatMap_eq_total]
    exact total_mono fun e _ => Nat.succ_le_succ (length_referenceNames e.2).le
  rw [mentionable, List.length_append]
  exact Nat.add_le_add hdefs hfound

/-! ## The components that are listed -/

/-- A producer `p` within `root` that goes by a name that can be mentioned, and names only what can
be. -/
structure Mentioned (defs : Dict Input) (root : Input) (name : String) (p : Input) : Prop where
  within : Within defs root (.referenced p name)
  mem : name ∈ mentionable defs (doc defs root)
  subset : p.referenceNames ⊆ mentionable defs (doc defs root)

theorem mentioned_of_found_root :
    ∀ e ∈ (doc defs root).found, Mentioned defs root e.1 e.2 := by
  intro e he
  have hwithin : Within defs root (.referenced e.2 e.1) :=
    found_of_closed (fun _ _ => .child) (fun _ _ => .defer) .root e he
  have hsub : (e.1 :: e.2.referenceNames) ⊆ mentionable defs (doc defs root) := fun n hn =>
    List.mem_append_right _ (List.mem_flatMap.2 ⟨e, he, hn⟩)
  exact ⟨hwithin, hsub (.head _), fun n hn => hsub (.tail _ hn)⟩

theorem Mentioned.of_found {p : Input} (h : Mentioned defs root name p) :
    ∀ e ∈ (doc defs p).found, Mentioned defs root e.1 e.2 := by
  intro e he
  -- shapes within the input that name only what can be mentioned are closed under lookups
  have hclosed : Within defs root (.referenced e.2 e.1) ∧
      referenceNames (.referenced e.2 e.1) ⊆ mentionable defs (doc defs root) :=
    found_of_closed
      (P := fun i => Within defs root i ∧ i.referenceNames ⊆ mentionable defs (doc defs root))
      (fun i j hi hj => ⟨hi.1.child hj, List.Subset.trans (referenceNames_subset hj) hi.2⟩)
      (fun name i hname hi => ⟨hname.1.defer hi, fun n hn =>
        List.mem_append_left _ (List.mem_flatMap.2 ⟨_, Dict.mem_of_get? hi, hn⟩)⟩)
      ⟨h.within.child (.head _), h.subset⟩ e he
  exact ⟨hclosed.1, hclosed.2 (.head _), fun n hn => hclosed.2 (.tail _ hn)⟩

/-- Collecting the components of `root` is done before the steps run out, of which there are
`componentBound`. -/
theorem exists_collect (defs : Dict Input) (root : Input) :
    ∃ cs, Components.collect (m := Id) (fun i => pure (doc defs i))
        (componentBound defs [doc defs root]) [doc defs root] = some cs ∧
      Components.Closed (doc defs) (Mentioned defs root) cs ∧
      ∀ n ∈ (doc defs root).found.names, n ∈ cs.names := by
  have hmentioned : ∀ d ∈ [doc defs root], ∀ e ∈ d.found, Mentioned defs root e.1 e.2 :=
    List.forall_mem_singleton.2 mentioned_of_found_root
  have hfound : ∀ name p, Mentioned defs root name p →
      ∀ e ∈ (doc defs p).found, Mentioned defs root e.1 e.2 := fun _ _ => Mentioned.of_found
  obtain ⟨cs, hcs, hclosed, hroots⟩ := Components.collect_closed hfound
    (fun _ _ => Mentioned.mem) (length_mentionable_le (doc defs root)) hmentioned
  exact ⟨cs, hcs, hclosed, hroots _ (.head _)⟩

/-- **The components of an input are all there**: each is documented as a producer within `root`
documents it, what that mentions is listed, and so is what `root` itself mentions. -/
theorem components_closed (defs : Dict Input) (root : Input) :
    Components.Closed (doc defs) (fun name p => Within defs root (.referenced p name))
        (components defs [doc defs root]) ∧
      ∀ n ∈ (doc defs root).found.names, n ∈ (components defs [doc defs root]).names := by
  obtain ⟨cs, hcs, hclosed, hroot⟩ := exists_collect defs root
  have hcomponents : components defs [doc defs root] = cs := congrArg (fun o => o.getD []) hcs
  rw [hcomponents]
  refine ⟨fun name f hf => ?_, hroot⟩
  obtain ⟨p, hp, hfp, hfound⟩ := hclosed name f hf
  exact ⟨p, hp.within, hfp, hfound⟩

end Input

end JsonShape
