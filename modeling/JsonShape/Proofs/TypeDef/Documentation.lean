import JsonShape.Proofs.Input.Components
import JsonShape.Proofs.Schema.Renamed
import JsonShape.Proofs.TypeDef.Meaning
import JsonShape.Registry.Compile

/-!
# Two ways of documenting a type description

A type description is documented by the fragment of its tree, and by the documentation of its input.
Both mention the types that the description names. The fragments differ in how they put unions and
enumerations, null and rules; without those they are the same but for the names of components.

* `alike_fragment`: the two fragments of a plain description.
* `exists_mention_of_found`, `mem_names_found`: what the documentation of the input mentions.
-/

namespace JsonShape

namespace Compiler

/-! ## Fragments of trees -/

theorem fragment_object (attributes : List (Attribute Node)) :
    fragment (.object attributes) =
      Node.renderObject (attributes.map (Attribute.map fragment)) := by
  have hpass : ∀ (f : Node → Node) as, (∀ as, f (.object as) = .object as) →
      (Node.object as).transform f = .object (as.map (Attribute.map (Node.transform f))) :=
    fun f as hf => by rw [Node.transform_object, hf]
  have hnormalize : (Node.object attributes).normalize =
      .object (attributes.map (Attribute.map Node.normalize)) := by
    rw [Node.normalize, hpass _ _ fun _ => rfl, hpass _ _ fun _ => rfl, List.map_map]
    rfl
  rw [fragment, hnormalize, Node.renameRefs, hpass _ _ fun _ => rfl, Node.render_object,
    List.map_map, List.map_map]
  rfl

theorem fragment_list (item : Node) : fragment (.list item) = Fragment.array (fragment item) := rfl

theorem fragment_scalar (s : Scalar) : fragment (.scalar s) = Node.renderScalar s [] := rfl

theorem fragment_reference (name : String) :
    fragment (.reference name) = Fragment.reference (TypeName.safeName name) := rfl

end Compiler

namespace TypeDef

open Input (docWith withDoc docWith_object distinct_withDoc)
open Compiler (fragment)
open Fragment (Alike)
open JsonShape.TypeName (safeName dottedName)

variable [Regex.Engine] {registry : Registry} {deferred : String → Doc Input} {d : TypeDef}
  {i : Input}
  {name : String}

/-! ## Plain descriptions -/

/-- A description without unions, enumerations, null and rules. -/
structure Plain (d : TypeDef) : Prop where
  sum : ∀ left right, .sum left right ∉ d.parts
  enum : ∀ values, .enum values ∉ d.parts
  null : .scalar .null ∉ d.parts
  unconstrained : d.Unconstrained

omit [Regex.Engine] in
theorem Plain.of_parts {part : TypeDef} (h : d.Plain) (hparts : ∀ p ∈ part.parts, p ∈ d.parts) :
    part.Plain where
  sum left right hmem := h.sum left right (hparts _ hmem)
  enum values hmem := h.enum values (hparts _ hmem)
  null hmem := h.null (hparts _ hmem)
  unconstrained := h.unconstrained.of_parts hparts

theorem alike_scalar {s : Scalar} (h : s ≠ .null) :
    Alike safeName dottedName (Node.renderScalar s [])
      (docWith deferred (scalarInput s)).fragment := by
  have htype : ∀ text, Fragment.RenamedMember safeName dottedName ("type", .string text)
      ("type", .string text) := Fragment.renamedMember_text (by decide)
  have hformat : ∀ text, Fragment.RenamedMember safeName dottedName ("format", .string text)
      ("format", .string text) := Fragment.renamedMember_text (by decide)
  cases s with
  | null => exact absurd rfl h
  | boolean | integer | number | string => exact ⟨_, _, rfl, rfl, .cons (htype _) .nil⟩
  | date | dateTime => exact ⟨_, _, rfl, rfl, .cons (htype _) (.cons (hformat _) .nil)⟩
  | any => exact ⟨_, _, rfl, rfl, .nil⟩

/-- A described key is documented alike. -/
theorem alike_ofMember {k : Member TypeDef} {m : Member Input}
    (hm : m = ⟨k.key, m.value, k.required, k.description⟩)
    (h : Alike safeName dottedName (fragment k.value.tree.node)
      (docWith deferred m.value).fragment) :
    Alike safeName dottedName (Node.describe (keyNotes k.description) (fragment k.value.tree.node))
      (Doc.ofMember (withDoc deferred m)).fragment := by
  have hdescription : (withDoc deferred m).description = k.description := by rw [hm]; rfl
  unfold Doc.ofMember
  rw [hdescription]
  cases k.description with
  | none => exact h
  | some text => exact h.described text

/-- Records of keys that are documented alike are documented alike. -/
theorem alike_struct {keys : List (Member TypeDef)} {members : List (Member Input)}
    (hkeys : (Member.keys keys).Nodup) (hdistinct : Member.distinct members = members)
    (h : List.Forall₂ (fun k m => m = ⟨k.key, m.value, k.required, k.description⟩ ∧
      Alike safeName dottedName (fragment k.value.tree.node)
        (docWith deferred m.value).fragment) keys members) :
    Alike safeName dottedName (fragment (struct keys).tree.node)
      (docWith deferred (.object members)).fragment := by
  let described (k : Member TypeDef) : String × Json :=
    (k.key, Node.describe (keyNotes k.description) (fragment k.value.tree.node))
  have htree : fragment (struct keys).tree.node = Fragment.object (keys.map described)
      ((keys.filter Member.required).map Member.key) := by
    have hnodup : (Dict.names ([] ++ keys.map described)).Nodup := by
      rw [List.nil_append, Dict.names, List.map_map]
      exact hkeys
    have hofList : Dict.ofList (keys.map described) = keys.map described :=
      Dict.extend_of_nodup hnodup
    rw [node_tree_struct, Compiler.fragment_object, Node.renderObject, List.filter_map,
      List.map_map, List.map_map, List.map_map, List.filter_map, List.map_map]
    exact congrArg₂ Fragment.object hofList rfl
  have hinput : (docWith deferred (.object members)).fragment =
      Fragment.object (members.map fun m => (m.key, (Doc.ofMember (withDoc deferred m)).fragment))
        ((members.filter Member.required).map Member.key) := by
    rw [docWith_object, Doc.fragment_record, distinct_withDoc, hdistinct, List.map_map,
      List.filter_map, List.map_map]
    rfl
  have hrequired : (members.filter Member.required).map Member.key =
      (keys.filter Member.required).map Member.key := by
    have hfilter := List.rel_filter (p := Member.required) (q := Member.required)
      (fun k m hkm => by show k.required = true ↔ m.required = true; rw [hkm.1]) h
    exact (map_eq_of_forall₂ hfilter fun _ _ hkm => by rw [hkm.1]).symm
  rw [htree, hinput, hrequired]
  refine Fragment.alike_object ?_ _
  rw [List.forall₂_map_left_iff, List.forall₂_map_right_iff]
  exact h.imp fun k m hkm => ⟨by rw [hkm.1], alike_ofMember hkm.1 hkm.2⟩

/-- **Plain descriptions are documented alike**: by the fragment of the tree and by the
documentation of the input `i`, if the types that they name are documented by references. -/
theorem alike_fragment (hplain : d.Plain) (hkeys : d.DistinctKeys)
    (hi : d.input registry = .ok i) (hdeferred : ∀ name, d.Mentions name →
      (deferred name).fragment = Fragment.reference (dottedName name)) :
    Alike safeName dottedName (fragment d.tree.node) (docWith deferred i).fragment := by
  induction d generalizing i with
  | struct keys ih =>
    obtain ⟨members, hmembers, rfl⟩ := input_struct hi
    refine alike_struct hkeys.nodup (distinct_of_keyInputs hmembers hkeys.nodup) ?_
    have hin : List.Forall₂ (fun k m => k ∈ keys ∧ k.value.input registry = .ok m.value ∧
        m = ⟨k.key, m.value, k.required, k.description⟩) keys members :=
      (List.forall₂_and_left _ _).2 ⟨fun _ hk => hk, declared_of_keyInputs hmembers⟩
    refine hin.imp fun k m ⟨hk, hvalue, hm⟩ => ⟨hm, ?_⟩
    have hplaink : k.value.Plain :=
      hplain.of_parts fun p hp => .tail _ (mem_keyParts.2 ⟨k, hk, hp⟩)
    exact ih k hk hplaink (hkeys.value hk) hvalue fun n hn =>
      hdeferred n (mentions_struct.2 ⟨k, hk, hn⟩)
  | sum left right _ _ => exact absurd (.head _) (hplain.sum left right)
  | constrained base rules ih =>
    obtain ⟨b, hb, hi⟩ := input_constrained hi
    obtain rfl := hplain.unconstrained base rules (.head _)
    obtain rfl : b = i := Except.ok.inj hi
    exact ih (hplain.of_parts fun p hp => .tail _ hp) hkeys.base hb fun n hn =>
      hdeferred n (mentions_constrained.2 hn)
  | array member ih =>
    obtain ⟨m, hm, rfl⟩ := input_array hi
    have hmember := ih (hplain.of_parts fun p hp => .tail _ hp) hkeys.member hm fun n hn =>
      hdeferred n (mentions_array.2 hn)
    have htree : fragment (array member).tree.node = Fragment.array (fragment member.tree.node) :=
      Compiler.fragment_list _
    rw [htree]
    exact hmember.array
  | enum values => exact absurd (.head _) (hplain.enum values)
  | scalar s =>
    obtain rfl := input_scalar hi
    have htree : fragment (scalar s).tree.node = Node.renderScalar s [] :=
      Compiler.fragment_scalar s
    rw [htree]
    exact alike_scalar fun hs => hplain.null (hs ▸ .head _)
  | named target =>
    obtain ⟨-, rfl⟩ := input_named hi
    have htarget : (docWith deferred (.defer target)).fragment =
        Fragment.reference (dottedName target) := hdeferred target (mentions_named.2 rfl)
    have htree : fragment (TypeDef.named target).tree.node =
        Fragment.reference (safeName target) := Compiler.fragment_reference target
    rw [htarget, htree]
    exact Fragment.alike_reference target

/-! ## What the documentation of an input mentions -/

theorem found_foldlM {rules : List Constraint} {b : Input}
    (h : rules.foldlM Constraint.refine b = .ok i) :
    (docWith deferred i).found = (docWith deferred b).found := by
  induction rules generalizing b with
  | nil => rw [Except.ok.inj h]
  | cons rule rest ih =>
    change (rule.refine b).bind (fun j => rest.foldlM Constraint.refine j) = .ok i at h
    obtain ⟨j, hj, h⟩ := Except.bind_eq_ok.1 h
    refine (ih h).trans ?_
    cases rule with
    | pattern text =>
      rw [Constraint.refine] at hj
      split at hj
      · rw [← Except.ok.inj hj]
        rfl
      · cases hj
    | multipleOf _ =>
      rw [← Except.ok.inj hj]
      rfl
    | minimum _ | maximum _ | exclusiveMinimum _ | exclusiveMaximum _ => rw [← Except.ok.inj hj]

/-- Rules mention nothing. -/
theorem found_refineAll {rules : List Constraint} {b : Input} (h : refineAll b rules = .ok i) :
    (docWith deferred i).found = (docWith deferred b).found := by
  refine (found_foldlM h).trans ?_
  split <;> rfl

/-- Documentation mentions what a type mentions that `d` names. -/
theorem exists_mention_of_found (hi : d.input registry = .ok i) {e : String × Input}
    (he : e ∈ (docWith deferred i).found) :
    ∃ name, d.Mentions name ∧ e ∈ (deferred name).found := by
  induction d generalizing i with
  | struct keys ih =>
    obtain ⟨members, hmembers, rfl⟩ := input_struct hi
    rw [docWith_object] at he
    obtain ⟨m', hm', he⟩ := Doc.mem_found_record he
    rw [distinct_withDoc] at hm'
    obtain ⟨m, hm, rfl⟩ := List.mem_map.1 hm'
    obtain ⟨k, hk, hvalue, -⟩ := exists_of_forall₂_of_mem (declared_of_keyInputs hmembers).flip
      (Member.mem_of_mem_distinct hm)
    obtain ⟨name, hname, he⟩ := ih k hk hvalue he
    exact ⟨name, mentions_struct.2 ⟨k, hk, hname⟩, he⟩
  | sum left right ihl ihr =>
    obtain ⟨l, r, hl, hr, rfl⟩ := input_sum hi
    obtain ⟨doc, hdoc, he⟩ := Doc.mem_found_combine he
    rcases List.mem_pair.1 hdoc with rfl | rfl
    · obtain ⟨name, hname, he⟩ := ihl hl he
      exact ⟨name, mentions_sum.2 (Or.inl hname), he⟩
    · obtain ⟨name, hname, he⟩ := ihr hr he
      exact ⟨name, mentions_sum.2 (Or.inr hname), he⟩
  | constrained base rules ih =>
    obtain ⟨b, hb, hi⟩ := input_constrained hi
    rw [found_refineAll hi] at he
    obtain ⟨name, hname, he⟩ := ih hb he
    exact ⟨name, mentions_constrained.2 hname, he⟩
  | array member ih =>
    obtain ⟨m, hm, rfl⟩ := input_array hi
    obtain ⟨name, hname, he⟩ := ih hm he
    exact ⟨name, mentions_array.2 hname, he⟩
  | enum values =>
    obtain rfl := input_enum hi
    exact absurd he List.not_mem_nil
  | scalar s =>
    obtain rfl := input_scalar hi
    cases s <;> exact absurd he List.not_mem_nil
  | named target =>
    obtain ⟨-, rfl⟩ := input_named hi
    exact ⟨target, mentions_named.2 rfl, he⟩

/-- Every name that the description mentions is documented. -/
theorem mem_names_found (hi : d.input registry = .ok i) (hkeys : d.DistinctKeys)
    (hname : d.Mentions name) {k : String} (hk : k ∈ (deferred name).found.names) :
    k ∈ (docWith deferred i).found.names := by
  induction d generalizing i with
  | struct keys ih =>
    obtain ⟨members, hmembers, rfl⟩ := input_struct hi
    obtain ⟨key, hkey, hname⟩ := mentions_struct.1 hname
    obtain ⟨m, hm, hvalue, -⟩ := exists_of_forall₂_of_mem (declared_of_keyInputs hmembers) hkey
    rw [docWith_object, Doc.mem_names_record, distinct_withDoc,
      distinct_of_keyInputs hmembers hkeys.nodup]
    exact ⟨_, List.mem_map_of_mem hm, ih key hkey hvalue (hkeys.value hkey) hname⟩
  | sum left right ihl ihr =>
    obtain ⟨l, r, hl, hr, rfl⟩ := input_sum hi
    refine Doc.mem_names_combine.2 ?_
    rcases mentions_sum.1 hname with hname | hname
    · exact ⟨_, .head _, ihl hl hkeys.left hname⟩
    · exact ⟨_, .tail _ (.head _), ihr hr hkeys.right hname⟩
  | constrained base rules ih =>
    obtain ⟨b, hb, hi⟩ := input_constrained hi
    rw [found_refineAll hi]
    exact ih hb hkeys.base (mentions_constrained.1 hname)
  | array member ih =>
    obtain ⟨m, hm, rfl⟩ := input_array hi
    have hmember := ih hm hkeys.member (mentions_array.1 hname)
    exact hmember
  | enum values => exact absurd hname not_mentions_enum
  | scalar s => exact absurd hname not_mentions_scalar
  | named target =>
    obtain ⟨-, rfl⟩ := input_named hi
    obtain rfl := mentions_named.1 hname
    exact hk

end TypeDef

end JsonShape
