import JsonShape.Proofs.Input.Limit
import JsonShape.Proofs.Node.Render
import JsonShape.Proofs.TypeDef.References
import JsonShape.Proofs.TypeDef.Input

/-!
# What type descriptions mean

A type description is read twice: as a type tree, which is documented, and as an input, which checks
values. Given that both readings agree on the types that the description names, they agree on the
description.

* `TypeDef.Admits` is the meaning of the tree.
* `admits_of_accepts`: what the input accepts is a value of the tree.
* `accepts_of_admits`: without rules, a value of the tree is accepted, if there is an answer at all.
* `of_scope`: what shapes hand on from their parts, such as that there is an answer, holds if it
  does of the names in scope, namely those that the description leads to on the same value, and
  those that it mentions on smaller ones.
-/

namespace JsonShape

namespace TypeDef

variable {registry : Registry} {named : String → Json → Prop} {d : TypeDef} {v : Json}

/-! ## Trees -/

/-- `v` is one of the values of the description, given those of `named` types. -/
def Admits (named : String → Json → Prop) (d : TypeDef) (v : Json) : Prop :=
  d.tree.node.Admits named v

theorem admits_struct {keys : List (Member TypeDef)} : (struct keys).Admits named v ↔
    ∃ ms, v = .object ms ∧ ∀ m ∈ keys, (m.required → Dict.contains ms m.key) ∧
      ∀ x, Dict.get? ms m.key = some x → m.value.Admits named x := by
  rw [Admits, node_tree_struct, Node.admits_object]
  simp only [List.forall_mem_map]
  rfl

theorem admits_sum {left right : TypeDef} :
    (sum left right).Admits named v ↔ left.Admits named v ∨ right.Admits named v := Iff.rfl

theorem admits_constrained {base : TypeDef} {rules : List Constraint} :
    (constrained base rules).Admits named v ↔ base.Admits named v := Iff.rfl

theorem admits_array {member : TypeDef} : (array member).Admits named v ↔
    ∃ xs, v = .array xs ∧ ∀ x ∈ xs, member.Admits named x := Iff.rfl

theorem admits_enum {values : List Literal} :
    (enum values).Admits named v ↔ Input.isMember (values.map Literal.toJson) v := Iff.rfl

theorem admits_scalar {s : Scalar} : (scalar s).Admits named v ↔ s.admits v := Iff.rfl

theorem admits_named {name : String} : (TypeDef.named name).Admits named v ↔ named name v := Iff.rfl

/-! ## Distinct keys -/

/-- The keys of every record in the description are distinct. -/
def DistinctKeys (d : TypeDef) : Prop := ∀ keys, .struct keys ∈ d.parts → (Member.keys keys).Nodup

theorem DistinctKeys.nodup {keys : List (Member TypeDef)} (h : (struct keys).DistinctKeys) :
    (Member.keys keys).Nodup := h keys (.head _)

theorem DistinctKeys.value {keys : List (Member TypeDef)} (h : (struct keys).DistinctKeys)
    {m : Member TypeDef} (hm : m ∈ keys) : m.value.DistinctKeys :=
  fun inner hinner => h inner (.tail _ (mem_keyParts.2 ⟨m, hm, hinner⟩))

theorem DistinctKeys.left {l r : TypeDef} (h : (sum l r).DistinctKeys) : l.DistinctKeys :=
  fun keys hkeys => h keys (.tail _ (List.mem_append_left _ hkeys))

theorem DistinctKeys.right {l r : TypeDef} (h : (sum l r).DistinctKeys) : r.DistinctKeys :=
  fun keys hkeys => h keys (.tail _ (List.mem_append_right _ hkeys))

theorem DistinctKeys.base {base : TypeDef} {rules : List Constraint}
    (h : (constrained base rules).DistinctKeys) : base.DistinctKeys :=
  fun keys hkeys => h keys (.tail _ hkeys)

theorem DistinctKeys.member {member : TypeDef} (h : (array member).DistinctKeys) :
    member.DistinctKeys := fun keys hkeys => h keys (.tail _ hkeys)

/-- The tree of a description with distinct keys is proper. -/
theorem DistinctKeys.proper (h : d.DistinctKeys) : d.tree.node.Proper := by
  induction d with
  | struct keys ih =>
    rw [node_tree_struct]
    refine .object ?_ (List.forall_mem_map.2 fun m hm => ih m hm (h.value hm))
    rw [List.map_map]
    exact h.nodup
  | sum left right ihl ihr => exact .sum (ihl h.left) (ihr h.right)
  | constrained base rules ih => exact ih h.base
  | array member ih => exact .list (ih h.member)
  | enum values => exact .enum values
  | scalar s => exact .primitive _ _
  | named name => exact .primitive _ _

/-! ## The two readings -/

/-- **What the input accepts is a value of the tree**, by induction on the description, if that is
so of named types. -/
theorem admits_of_accepts [Regex.Engine] {deferred : String → Json → Outcome} {i : Input}
    (hi : d.input registry = .ok i) (hkeys : d.DistinctKeys)
    (hnamed : ∀ name, d.Mentions name → ∀ v, Input.Accepts deferred (.defer name) v → named name v)
    (h : Input.Accepts deferred i v) : d.Admits named v := by
  induction d generalizing i v with
  | struct keys ih =>
    obtain ⟨members, hmembers, rfl⟩ := input_struct hi
    obtain ⟨ms, rfl, hms⟩ := Input.accepts_object.1 h
    rw [distinct_of_keyInputs hmembers hkeys.nodup] at hms
    refine admits_struct.2 ⟨ms, rfl, fun k hk => ?_⟩
    obtain ⟨m, hm, hinput, hkey, hrequired⟩ :=
      exists_of_forall₂_of_mem (forall₂_of_keyInputs hmembers) hk
    obtain ⟨hpresent, hvalue⟩ := hms m hm
    rw [hkey] at hpresent hvalue
    have hnamedk : ∀ name, k.value.Mentions name → ∀ v,
        Input.Accepts deferred (.defer name) v → named name v := fun name hname =>
      hnamed name (mentions_struct.2 ⟨k, hk, hname⟩)
    refine ⟨fun hr => hpresent (hrequired ▸ hr), fun x hx => ?_⟩
    exact ih k hk hinput (hkeys.value hk) hnamedk (hvalue x hx)
  | sum left right ihl ihr =>
    obtain ⟨l, r, hl, hr, rfl⟩ := input_sum hi
    rcases Input.accepts_or_of_accepts_either h with h | h
    · have hnamedl : ∀ name, left.Mentions name → ∀ v,
          Input.Accepts deferred (.defer name) v → named name v := fun name hname =>
        hnamed name (mentions_sum.2 (Or.inl hname))
      exact Or.inl (ihl hl hkeys.left hnamedl h)
    · have hnamedr : ∀ name, right.Mentions name → ∀ v,
          Input.Accepts deferred (.defer name) v → named name v := fun name hname =>
        hnamed name (mentions_sum.2 (Or.inr hname))
      exact Or.inr (ihr hr hkeys.right hnamedr h)
  | constrained base rules ih =>
    obtain ⟨b, hb, hi⟩ := input_constrained hi
    have hbase : Input.Accepts deferred b v := (refined_refineAll hi).accepts h
    exact ih hb hkeys.base (fun name hname => hnamed name (mentions_constrained.2 hname)) hbase
  | array member ih =>
    obtain ⟨m, hm, rfl⟩ := input_array hi
    obtain ⟨xs, rfl, hxs⟩ := Input.accepts_list.1 h
    refine admits_array.2 ⟨xs, rfl, fun x hx => ?_⟩
    exact ih hm hkeys.member (fun name hname => hnamed name (mentions_array.2 hname)) (hxs x hx)
  | enum values =>
    obtain rfl := input_enum hi
    exact accepts_enum_any.1 h
  | scalar s =>
    obtain rfl := input_scalar hi
    exact accepts_scalarInput.1 h
  | named name =>
    obtain ⟨-, rfl⟩ := input_named hi
    exact hnamed name (mentions_named.2 rfl) v h

/-- The names that the description leads to outside of records and arrays. -/
def heads : TypeDef → List String
  | .sum left right => heads left ++ heads right
  | .constrained base _ => heads base
  | .named name => [name]
  | .struct _ | .array _ | .enum _ | .scalar _ => []

theorem mentions_of_mem_heads {name : String} (h : name ∈ d.heads) : d.Mentions name := by
  induction d with
  | sum left right ihl ihr =>
    exact mentions_sum.2 ((List.mem_append.1 h).imp ihl ihr)
  | constrained base rules ih => exact mentions_constrained.2 (ih h)
  | named target => exact mentions_named.2 (List.mem_singleton.1 h)
  | struct _ _ | array _ _ | enum _ | scalar _ => exact absurd h List.not_mem_nil

/-- The names that checking `v` may look up, and the values `u` on which it does. -/
def Scope (d : TypeDef) (v : Json) (name : String) (u : Json) : Prop :=
  (name ∈ d.heads ∧ u = v) ∨ (d.Mentions name ∧ u.depth < v.depth)

theorem Scope.mentions {u : Json} {name : String} (h : d.Scope v name u) : d.Mentions name :=
  h.elim (fun h => mentions_of_mem_heads h.1) And.left

/-- What is in scope of a part on the same value is in scope of the whole. -/
theorem Scope.of_part {part : TypeDef} {u : Json} {name : String}
    (hheads : name ∈ part.heads → name ∈ d.heads) (hpart : part.Mentions name → d.Mentions name)
    (h : part.Scope v name u) : d.Scope v name u :=
  h.imp (And.imp_left hheads) (And.imp_left hpart)

theorem Scope.constrained {base : TypeDef} {rules : List Constraint} {u : Json} {name : String}
    (h : base.Scope v name u) : (TypeDef.constrained base rules).Scope v name u :=
  h.imp (fun hname => hname) (And.imp_left mentions_constrained.2)

/-- What is in scope of a part on a smaller value is mentioned on a smaller value. -/
theorem Scope.of_smaller {part : TypeDef} {x u : Json} {name : String} (hx : x.depth < v.depth)
    (hpart : part.Mentions name → d.Mentions name) (h : part.Scope x name u) :
    d.Scope v name u := by
  rcases h with ⟨hname, rfl⟩ | ⟨hname, hu⟩
  · exact Or.inr ⟨hpart (mentions_of_mem_heads hname), hx⟩
  · exact Or.inr ⟨hpart hname, hu.trans hx⟩

theorem Scope.left {left right : TypeDef} {u : Json} {name : String} (h : left.Scope v name u) :
    (sum left right).Scope v name u :=
  h.of_part (List.mem_append_left _) fun hname => mentions_sum.2 (Or.inl hname)

theorem Scope.right {left right : TypeDef} {u : Json} {name : String}
    (h : right.Scope v name u) : (sum left right).Scope v name u :=
  h.of_part (List.mem_append_right _) fun hname => mentions_sum.2 (Or.inr hname)

theorem Scope.value {keys : List (Member TypeDef)} {k : Member TypeDef} {ms : Dict Json}
    {x u : Json} {name : String} (hk : k ∈ keys) (hx : ms.get? k.key = some x)
    (h : k.value.Scope x name u) : (struct keys).Scope (.object ms) name u :=
  h.of_smaller (Json.depth_lt_of_get? hx) fun hname => mentions_struct.2 ⟨k, hk, hname⟩

theorem Scope.member {member : TypeDef} {xs : List Json} {x u : Json} {name : String}
    (hx : x ∈ xs) (h : member.Scope x name u) : (array member).Scope (.array xs) name u :=
  h.of_smaller (Json.depth_lt_of_mem hx) mentions_array.2

section Scope

variable [Regex.Engine] {i : Input}
-- what holds of a shape on a value, if it holds of all that the shape asks for
variable {P : Input → Json → Prop} (hstep : ∀ i v, i.isUnmapped → (∀ name, i ≠ .defer name) →
  (∀ j u, Input.Asks (j, u) (i, v) → P j u) → P i v)
include hstep

theorem Refined.of_asks {b : Input} (h : Refined b i) (hb : P b v) : P i v := by
  induction h with
  | base => exact hb
  | pattern _ _ ih | inRange _ _ ih | multipleOf _ _ ih =>
    refine hstep _ _ rfl nofun fun j u hask => ?_
    cases hask with
    | same hj =>
      obtain rfl := List.mem_singleton.1 hj
      exact ih

/-- **What holds of all names in scope holds of the description**, if `P` is handed on from the
parts of shapes. -/
theorem of_scope (hi : d.input registry = .ok i)
    (h : ∀ name u, d.Scope v name u → P (.defer name) u) : P i v := by
  induction d generalizing i v with
  | struct keys ih =>
    obtain ⟨members, hmembers, rfl⟩ := input_struct hi
    refine hstep _ _ rfl nofun fun j u hask => ?_
    cases hask with
    | same hj => cases hj
    | member hm hx =>
      obtain ⟨k, hk, hinput, hkey, -⟩ := exists_of_forall₂_of_mem
        (forall₂_of_keyInputs hmembers).flip (Member.mem_of_mem_distinct hm)
      rw [hkey] at hx
      exact ih k hk hinput fun name u hu => h name u (hu.value hk hx)
  | sum left right ihl ihr =>
    obtain ⟨l, r, hl, hr, rfl⟩ := input_sum hi
    refine hstep _ _ rfl nofun fun j u hask => ?_
    cases hask with
    | same hj =>
      rcases List.mem_cons.1 hj with rfl | hj
      · exact ihl hl fun name u hu => h name u hu.left
      · obtain rfl := List.mem_singleton.1 hj
        exact ihr hr fun name u hu => h name u hu.right
  | constrained base rules ih =>
    obtain ⟨b, hb, hi⟩ := input_constrained hi
    have hbase : P b v := ih hb fun name u hu => h name u hu.constrained
    exact (refined_refineAll hi).of_asks hstep hbase
  | array member ih =>
    obtain ⟨m, hm, rfl⟩ := input_array hi
    refine hstep _ _ rfl nofun fun j u hask => ?_
    cases hask with
    | same hj => cases hj
    | item hx => exact ih hm fun name u hu => h name u (hu.member hx)
  | enum values =>
    obtain rfl := input_enum hi
    have hany : P .any v := hstep _ _ rfl nofun fun j u hask => by
      cases hask with
      | same hj => cases hj
    refine hstep _ _ rfl nofun fun j u hask => ?_
    cases hask with
    | same hj =>
      obtain rfl := List.mem_singleton.1 hj
      exact hany
  | scalar s =>
    obtain rfl := input_scalar hi
    refine hstep _ _ (by cases s <;> rfl) (by cases s <;> exact nofun) fun j u hask => ?_
    cases s <;> cases hask with
    | same hj => cases hj
  | named name =>
    obtain ⟨-, rfl⟩ := input_named hi
    exact h name v (Or.inl ⟨List.mem_singleton.2 rfl, rfl⟩)

end Scope

/-- No type in the description is constrained by a rule. -/
def Unconstrained (d : TypeDef) : Prop :=
  ∀ base rules, .constrained base rules ∈ d.parts → rules = []

theorem Unconstrained.of_parts {part : TypeDef} (h : d.Unconstrained)
    (hparts : ∀ p ∈ part.parts, p ∈ d.parts) : part.Unconstrained :=
  fun base rules hmem => h base rules (hparts _ hmem)

theorem Unconstrained.left {left right : TypeDef} (h : (sum left right).Unconstrained) :
    left.Unconstrained :=
  h.of_parts fun _ hp => .tail _ (List.mem_append_left _ hp)

theorem Unconstrained.right {left right : TypeDef} (h : (sum left right).Unconstrained) :
    right.Unconstrained :=
  h.of_parts fun _ hp => .tail _ (List.mem_append_right _ hp)

theorem Unconstrained.value {keys : List (Member TypeDef)} (h : (struct keys).Unconstrained)
    {k : Member TypeDef} (hk : k ∈ keys) : k.value.Unconstrained :=
  h.of_parts fun _ hp => .tail _ (mem_keyParts.2 ⟨k, hk, hp⟩)

/-- **Without rules, a value of the tree is accepted**, if there is an answer at all: `named` types
need accept their values in `Scope` only. -/
theorem accepts_of_admits [Regex.Engine] {deferred : String → Json → Outcome} {i : Input}
    (hi : d.input registry = .ok i) (hkeys : d.DistinctKeys)
    (hfree : d.Unconstrained)
    (hnamed : ∀ name u, d.Scope v name u → named name u → Input.Accepts deferred (.defer name) u)
    (hanswers : Input.Answers deferred i v) (h : d.Admits named v) :
    Input.Accepts deferred i v := by
  induction d generalizing i v with
  | struct keys ih =>
    obtain ⟨members, hmembers, rfl⟩ := input_struct hi
    obtain ⟨ms, rfl, hms⟩ := admits_struct.1 h
    refine Input.accepts_object.2 ⟨ms, rfl, fun m hm => ?_⟩
    obtain ⟨k, hk, hinput, hkey, hrequired⟩ := exists_of_forall₂_of_mem
      (forall₂_of_keyInputs hmembers).flip (Member.mem_of_mem_distinct hm)
    obtain ⟨hpresent, hvalue⟩ := hms k hk
    refine ⟨fun hr => hkey ▸ hpresent (hrequired ▸ hr), fun x hx => ?_⟩
    have hansx : Input.Answers deferred m.value x :=
      Input.answers_object.1 hanswers ms rfl m hm x hx
    rw [hkey] at hx
    exact ih k hk hinput (hkeys.value hk) (hfree.value hk)
      (fun name u hu => hnamed name u (hu.value hk hx)) hansx (hvalue x hx)
  | sum left right ihl ihr =>
    obtain ⟨l, r, hl, hr, rfl⟩ := input_sum hi
    obtain ⟨hansl, hansr⟩ := Input.answers_either.1 hanswers
    rw [Input.accepts_either hanswers]
    rcases h with h | h
    · exact Or.inl (ihl hl hkeys.left hfree.left (fun name u hu => hnamed name u hu.left) hansl h)
    · -- the right side is asked only where the left one does not accept
      refine hansr.imp_right fun hansr => ?_
      exact ihr hr hkeys.right hfree.right (fun name u hu => hnamed name u hu.right) hansr h
  | constrained base rules ih =>
    obtain ⟨b, hb, hi⟩ := input_constrained hi
    obtain rfl := hfree base rules (.head _)
    obtain rfl : b = i := Except.ok.inj hi
    exact ih hb hkeys.base (hfree.of_parts fun p hp => .tail _ hp)
      (fun name u hu => hnamed name u hu.constrained) hanswers h
  | array member ih =>
    obtain ⟨m, hm, rfl⟩ := input_array hi
    obtain ⟨xs, rfl, hxs⟩ := admits_array.1 h
    refine Input.accepts_list.2 ⟨xs, rfl, fun x hx => ?_⟩
    have hansx : Input.Answers deferred m x := Input.answers_list.1 hanswers xs rfl x hx
    exact ih hm hkeys.member (hfree.of_parts fun p hp => .tail _ hp)
      (fun name u hu => hnamed name u (hu.member hx)) hansx (hxs x hx)
  | enum values =>
    obtain rfl := input_enum hi
    exact accepts_enum_any.2 h
  | scalar s =>
    obtain rfl := input_scalar hi
    exact accepts_scalarInput.2 h
  | named name =>
    obtain ⟨-, rfl⟩ := input_named hi
    exact hnamed name v (Or.inl ⟨List.mem_singleton.2 rfl, rfl⟩) h

end TypeDef

end JsonShape
