import JsonShape.Proofs.TypeDef.UnionFragments

/-!
# The unions of a type description

A position of a type is reached by steps to keys of records, to items of arrays and to alternatives
of unions; the same steps lead through the fragment (`Node.Documents.at`). So it can be said of
every union of a description which fragment it has (`TypeDef.wellFormed_unions`).
-/

namespace JsonShape

open Compiler (fragment)
open Fragment (Alone refKey)
open Node (nullFragment describe)

/-! ## Positions -/

/-- One step into a type. -/
inductive TypeDef.Step
  /-- To the member of a record that counts for the key, which is the last one declared. -/
  | key (name : String)
  /-- To the items of an array. -/
  | item
  /-- To an alternative of a union beside null. -/
  | alternative (i : Nat)
  deriving DecidableEq

open TypeDef (Step)

/-- The tree that a step leads to. -/
def Node.part? : Node → Step → Option Node
  | .object attributes, .key name =>
    (Dict.ofList (attributes.map fun a => (a.key, a.value))).get? name
  | .list item, .item => some item
  | n, .alternative i => if n.isUnion then n.others[i]? else none
  | _, _ => none

/-- The tree at a position. -/
def Node.at? (n : Node) (path : List Step) : Option Node := path.foldlM Node.part? n

/-- The fragment that a step leads to. The single alternative of a union has no fragment of its
own. -/
def Fragment.part? (f : Json) : Step → Option Json
  | .key name => (f.get? "properties").bind fun properties => properties.get? name
  | .item => f.get? "items"
  | .alternative i =>
    match f.get? "oneOf" with
    | some members => (members.items?.getD [])[i]?
    | none => [f][i]?

/-- The fragment at a position. -/
def Fragment.at? (f : Json) (path : List Step) : Option Json := path.foldlM Fragment.part? f

namespace Node

variable {c m n : Node} {f : Json} {key : String} {s : Step} {path : List Step}

/-- The keywords under which the fragments of parts stand. -/
def partKeys : List String := ["properties", "items", "oneOf"]

theorem ne_of_mem_partKeys (h : key ∈ partKeys) :
    "description" ≠ key ∧ "allOf" ≠ key ∧ key ≠ refKey ∧ key ≠ "nullable" := by
  simp only [partKeys, List.mem_cons, List.not_mem_nil, or_false] at h
  rcases h with rfl | rfl | rfl <;> simp [refKey]

theorem get?_describe_part {notes : Notes} (h : Alone f) (hkey : key ∈ partKeys) :
    (describe notes f).get? key = f.get? key := by
  obtain ⟨hdescription, hall, href, -⟩ := ne_of_mem_partKeys hkey
  exact get?_describe h hdescription hall href

theorem get?_withNull_part {null : Bool} (h : Alone f) (hkey : key ∈ partKeys) :
    (withNull null f).get? key = f.get? key := by
  obtain ⟨-, hall, href, hnullable⟩ := ne_of_mem_partKeys hkey
  rw [get?_withNull h hall href, if_neg fun hnull => hnullable hnull.1]

/-- `f` is the fragment of `n`, up to a description; where the tree is the single alternative of a
union, up to what the union adds to it. -/
structure Documents (n : Node) (f : Json) : Prop where
  bare : n.Bare
  union : n.isUnion → ∃ notes, f = describe notes (fragment n)
  parts : n.isUnion = false → ∀ key ∈ partKeys, f.get? key = (fragment n).get? key

theorem documents_describe (h : n.Bare) (notes : Notes) :
    n.Documents (describe notes (fragment n)) where
  bare := h
  union := fun _ => ⟨notes, rfl⟩
  parts := fun _ _ => get?_describe_part h.alone

theorem documents_fragment (h : n.Bare) : n.Documents (fragment n) := documents_describe h []

/-- What a union adds to its single alternative changes no fragment of a part. -/
theorem documents_single (hbare : c.Bare) (hunion : c.isUnion = false) (notes : Notes)
    (null : Bool) : c.Documents (describe notes (withNull null (fragment c))) where
  bare := hbare
  union := fun h => absurd (hunion.symm.trans h) Bool.false_ne_true
  parts := fun _ _ hkey => (get?_describe_part (alone_withNull hbare.alone) hkey).trans
    (get?_withNull_part hbare.alone hkey)

/-- The alternatives of a union have the fragments that are listed for it; a single one has what the
union has. -/
theorem documents_alternative {notes : Notes} {i : Nat} (h : n.Bare) (hm : n.others[i]? = some m) :
    ∃ g, Fragment.part? (describe notes (fragment n)) (.alternative i) = some g ∧
      m.Documents g := by
  have hother : ∀ c ∈ n.others, c.Bare ∧ c.isUnion = false := fun c => h.of_mem_others
  have hlist : (describe notes (fragment n)).get? "oneOf" = (fragment n).get? "oneOf" :=
    get?_describe_part h.alone (by simp [partKeys])
  have halone := h.alone
  rw [fragment_eq_unionFragment h] at hlist halone ⊢
  generalize n.kept.any isNull = null at hlist halone
  generalize n.others = cs at hm hother hlist halone
  match cs with
  | [] => cases hm
  | [c] =>
    obtain ⟨hbare, hunion⟩ := hother c (.head _)
    obtain ⟨hi, rfl⟩ := List.getElem?_eq_some_iff.1 hm
    obtain rfl : i = 0 := Nat.lt_one_iff.1 hi
    have hdocuments := documents_single hbare hunion notes null
    have hnone : (describe notes (withNull null (fragment c))).get? "oneOf" = none := by
      rw [hdocuments.parts hunion _ (by simp [partKeys]), get?_fragment hbare hunion (Or.inl rfl)]
      rfl
    refine ⟨_, ?_, hdocuments⟩
    rw [List.map_singleton, unionFragment, Fragment.part?, hnone]
    rfl
  | c :: d :: rest =>
    have hmembers : (unionFragment null ((c :: d :: rest).map fragment)).get? "oneOf" =
        some (.array ((c :: d :: rest).map fragment)) :=
      get?_withNull_part (Fragment.alone_of_get? rfl) (by simp [partKeys])
    refine ⟨fragment m, ?_, documents_fragment (hother m (List.mem_of_getElem? hm)).1⟩
    rw [Fragment.part?, hlist, hmembers]
    exact (List.getElem?_map ..).trans (by rw [hm]; rfl)

theorem part?_alternative (n : Node) (i : Nat) :
    n.part? (.alternative i) = if n.isUnion then n.others[i]? else none := by
  cases n <;> rfl

/-- A key of a record leads to the last attribute of this name, in the tree and in the fragment. -/
theorem get?_attributes {α : Type} (attributes : List (Attribute Node)) (value : Attribute Node → α)
    (name : String) : (Dict.ofList (attributes.map fun a => (a.key, value a))).get? name =
      (attributes.reverse.find? fun a => a.key = name).map value :=
  Dict.get?_ofList_map Attribute.key value attributes name

/-- **A step leads to the fragment of the tree that it leads to**: `part?` on both sides. -/
theorem Documents.part (h : n.Documents f) (hm : n.part? s = some m) :
    ∃ g, Fragment.part? f s = some g ∧ m.Documents g := by
  cases s with
  | alternative i =>
    rw [part?_alternative] at hm
    split at hm
    · next hn =>
      obtain ⟨notes, rfl⟩ := h.union hn
      exact documents_alternative h.bare hm
    · cases hm
  | key name =>
    cases n with
    | object attributes =>
      obtain ⟨a, ha, rfl⟩ := Option.map_eq_some_iff.1 ((get?_attributes _ _ _).symm.trans hm)
      have hget := h.parts rfl "properties" (by simp [partKeys])
      rw [fragment_object, Fragment.get?_object (by simp)] at hget
      have hmember := get?_attributes attributes (fun a => describe a.notes (fragment a.value)) name
      rw [ha] at hmember
      cases h.bare with
      | object hvalues =>
        have hmem : a ∈ attributes := List.mem_reverse.1 (List.mem_of_find?_eq_some ha)
        refine ⟨_, ?_, documents_describe (hvalues a hmem) a.notes⟩
        rw [Fragment.part?, hget]
        exact hmember
    | _ => cases hm
  | item =>
    cases n with
    | list item =>
      have hget := h.parts rfl "items" (by simp [partKeys])
      obtain rfl : item = m := Option.some.inj hm
      cases h.bare with
      | list hitem => exact ⟨fragment item, hget, documents_fragment hitem⟩
    | _ => cases hm

/-- **Every position of a tree has its fragment**, by induction on `path`. -/
theorem Documents.at (h : n.Documents f) (hm : n.at? path = some m) :
    ∃ g, Fragment.at? f path = some g ∧ m.Documents g := by
  induction path generalizing n f with
  | nil =>
    obtain rfl : n = m := Option.some.inj hm
    exact ⟨f, rfl, h⟩
  | cons s rest ih =>
    obtain ⟨k, hk, hm⟩ := Option.bind_eq_some_iff.1 hm
    obtain ⟨g, hg, hdocuments⟩ := h.part hk
    obtain ⟨r, hr, hlast⟩ := ih hdocuments hm
    exact ⟨r, Option.bind_eq_some_iff.2 ⟨g, hg, hr⟩, hlast⟩

end Node

namespace TypeDef

/-- The tree of a description has no remarks at its leaves. -/
theorem bare_tree (d : TypeDef) : d.tree.node.Bare := by
  induction d with
  | struct keys ih =>
    rw [node_tree_struct]
    exact .object (List.forall_mem_map.2 ih)
  | sum left right ihl ihr => exact .sum ihl ihr
  | constrained base rules ih => exact ih
  | array member ih => exact .list ih
  | enum values => exact .enum values
  | scalar s => exact .primitive (.scalar s)
  | named name => exact .primitive (.ref name)

/-- **The unions of a documented type are well formed.**

* At every depth of the fragment, what is listed under `oneOf` are at least two members; none of
  them is the fragment of null, and none a bare union (`Fragment.ProperUnion`).
* Every union `u` of the description, wherever it stands, has its fragment `g` at the same `path`,
  with the description of the key at which it stands. The fragment is nullable exactly if null is
  one of the alternatives and something else another one, or if the only alternative left is an
  enumeration that lists null. A union of nulls alone has the fragment of null. -/
theorem wellFormed_unions (d : TypeDef) :
    Fragment.Throughout Fragment.ProperUnion (fragment d.tree.node) ∧
      ∀ path u, d.tree.node.at? path = some u → u.isUnion →
        ∃ g notes, Fragment.at? (fragment d.tree.node) path = some g ∧
          g = describe notes (fragment u) ∧
          (g.get? "nullable" = some (.bool true) ↔
            ((∃ c ∈ u.choices, c.isNull = true) ∧ ∃ c ∈ u.choices, c.isNull = false) ∨
              ∃ values, u.normalize = .enum values ∧ Literal.null ∈ values) ∧
          ((∀ c ∈ u.choices, c.isNull = true) → fragment u = nullFragment) := by
  refine ⟨d.bare_tree.throughout, fun path u hu hunion => ?_⟩
  obtain ⟨g, hg, hdocuments⟩ := (Node.documents_fragment d.bare_tree).at hu
  obtain ⟨notes, hnotes⟩ := hdocuments.union hunion
  have hbare := hdocuments.bare
  refine ⟨g, notes, hg, hnotes, ?_, fun hnull => ?_⟩
  · have hnullable : (describe notes (fragment u)).get? "nullable" =
        (fragment u).get? "nullable" :=
      Node.get?_describe hbare.alone (by simp) (by simp) (by simp [refKey])
    rw [hnotes, hnullable, hbare.nullable_iff]
  · have hothers : u.others = [] := List.filter_eq_nil_iff.2 fun c hc => by
      simpa using hnull c (Node.mem_choices_of_mem_kept hc)
    rw [Node.fragment_eq_unionFragment hbare, hothers]
    rfl

/-- The items of a list that may itself be left out: the list is the single alternative beside null,
its items are people or null. -/
theorem wellFormed_unions_owners :
    let owner : TypeDef := .sum (.named "Api::Person") (.scalar .null)
    let owners : Member TypeDef :=
      ⟨"owners", .sum (.array owner) (.scalar .null), true, some "Who owns it."⟩
    let path : List Step := [.key "owners", .alternative 0, .item]
    (struct [owners]).tree.node.at? path = some owner.tree.node ∧ owner.tree.node.isUnion ∧
      ∃ g, Fragment.at? (fragment (struct [owners]).tree.node) path = some g ∧
        g.get? "nullable" = some (.bool true) := by
  intro owner owners path
  have hat : (struct [owners]).tree.node.at? path = some owner.tree.node := by decide
  obtain ⟨-, hpositions⟩ := wellFormed_unions (struct [owners])
  obtain ⟨g, notes, hg, -, hnullable, -⟩ := hpositions path owner.tree.node hat rfl
  refine ⟨hat, rfl, g, hg, hnullable.2 (Or.inl ⟨⟨.scalar .null, ?_, rfl⟩, ?_⟩)⟩
  · exact .tail _ (.head _)
  · exact ⟨.reference "Api::Person", .head _, rfl⟩

end TypeDef

end JsonShape
