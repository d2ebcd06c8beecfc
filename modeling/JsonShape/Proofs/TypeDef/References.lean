import JsonShape.Proofs.Node.References
import JsonShape.Proofs.Registry.Reach
import JsonShape.TypeDef.Tree

/-!
# The references of a type description

The tree of a description refers to the names in the description, from left to right. With the tree
comes a list of names, collected once each while the tree is built. It is the list of the
references, each at its first occurrence, whatever the nesting of records, unions and lists
(`TypeDef.found_tree`); the tree of a named type finds the same names without its own
(`TypeDef.found_rootTree`).

`TypeDef.found_lists_references` follows the references from the description to the tree that is
rendered.
-/

namespace JsonShape

namespace TypeDef

variable {d : TypeDef} {name : String}

/-! ## Trees -/

/-- The attribute of a key. -/
def keyAttribute (m : Member TypeDef) : Attribute Node :=
  ⟨m.key, m.required, m.value.tree.node, keyNotes m.description⟩

theorem fst_keyTrees (keys : List (Member TypeDef)) (found : List String) :
    (keyTrees keys found).1 = keys.map keyAttribute := by
  induction keys generalizing found with
  | nil => rfl
  | cons m rest ih => exact congrArg (keyAttribute m :: ·) (ih _)

theorem node_tree_struct (keys : List (Member TypeDef)) :
    (struct keys).tree.node = .object (keys.map keyAttribute) :=
  congrArg Node.object (fst_keyTrees keys [])

/-- A type that is described as itself admits every value. -/
theorem rootTree_self (name : String) : (named name).rootTree name = ⟨.scalar .any, []⟩ :=
  if_pos rfl

/-- But for a type that is described as itself, the tree of a named type is that of its
description. -/
theorem node_rootTree (h : d ≠ .named name) : (d.rootTree name).node = d.tree.node := by
  cases d with
  | named target =>
    have hne : target ≠ name := fun heq => h (congrArg TypeDef.named heq)
    rw [rootTree, if_neg hne]
    rfl
  | _ => rfl

/-! ## References -/

theorem references_tree_struct (keys : List (Member TypeDef)) : (struct keys).tree.node.references =
    keys.flatMap fun m => m.value.tree.node.references := by
  rw [node_tree_struct, Node.references_object, List.flatMap_map]
  rfl

/-- The tree of a description refers to the names in the description, which are `mentioned`. -/
theorem references_tree (d : TypeDef) : d.tree.node.references = d.mentioned := by
  induction d with
  | struct keys ih =>
    rw [references_tree_struct, mentioned_struct]
    exact List.flatMap_congr ih
  | sum left right ihl ihr =>
    have hsum : (sum left right).tree.node = .sum left.tree.node right.tree.node := rfl
    rw [hsum, Node.references_sum, mentioned_sum, ihl, ihr]
  | constrained base rules ih => exact ih
  | array member ih => exact ih
  | enum _ | scalar _ | named _ => rfl

/-- The tree of a named type refers to what its description mentions. -/
theorem mentions_of_mem_references_rootTree {root : String}
    (h : name ∈ (d.rootTree root).node.references) : d.Mentions name := by
  by_cases hself : d = .named root
  · subst hself
    rw [rootTree_self] at h
    exact absurd h List.not_mem_nil
  · rwa [node_rootTree hself, references_tree, mem_mentioned] at h

/-! ## Found names -/

/-- Names that are found one after another are found once each. -/
theorem addNames_eraseDups (names more : List String) :
    addNames names.eraseDups more.eraseDups = (names ++ more).eraseDups := by
  have hfold : ∀ names more : List String, addNames names more = more.foldl addNew names :=
    fun _ _ => rfl
  rw [hfold, foldl_addNew_of_eraseDups, foldl_addNew_eraseDups]

/-- What the types of some keys add to names found before. -/
theorem snd_keyTrees {keys : List (Member TypeDef)}
    (h : ∀ m ∈ keys, m.value.tree.found = m.value.tree.node.references.eraseDups)
    (before : List String) : (keyTrees keys before.eraseDups).2 =
      (before ++ keys.flatMap fun m => m.value.tree.node.references).eraseDups := by
  induction keys generalizing before with
  | nil => rw [List.flatMap_nil, List.append_nil, keyTrees]
  | cons m rest ih =>
    -- The names found so far are again first occurrences, now of all that has been met.
    obtain ⟨hm, hrest⟩ := List.forall_mem_cons.1 h
    change (keyTrees rest (addNames before.eraseDups m.value.tree.found)).2 = _
    rw [hm, addNames_eraseDups, ih hrest, List.flatMap_cons, List.append_assoc]

/-- **The names that are found with a tree are its references**, each at its first occurrence
(`List.eraseDups`). -/
theorem found_tree (d : TypeDef) : d.tree.found = d.tree.node.references.eraseDups := by
  induction d with
  | struct keys ih =>
    rw [references_tree_struct]
    exact snd_keyTrees ih []
  | sum left right ihl ihr =>
    have hsum : (sum left right).tree = ⟨.sum left.tree.node right.tree.node,
      addNames left.tree.found right.tree.found⟩ := rfl
    rw [hsum, Node.references_sum, ihl, ihr, addNames_eraseDups]
  | constrained base rules ih => exact ih
  | array member ih => exact ih
  | enum _ | scalar _ | named _ => rfl

/-- The tree of a named type finds what that of its description does, but not the type itself. -/
theorem found_rootTree (d : TypeDef) (name : String) :
    (d.rootTree name).found = d.tree.found.filter (· ≠ name) := by
  cases d with
  | named target =>
    have hroot : (named target).rootTree name =
        if target = name then ⟨.scalar .any, []⟩ else ⟨.reference target, [target]⟩ := rfl
    have htree : (named target).tree.found = [target] := rfl
    rw [hroot, htree, List.filter_singleton]
    by_cases h : target = name <;> simp [h]
  | _ => rfl

theorem mem_found_rootTree {root : String} :
    name ∈ (d.rootTree root).found ↔ d.Mentions name ∧ name ≠ root := by
  rw [found_rootTree, List.mem_filter, found_tree, List.mem_eraseDups, references_tree,
    mem_mentioned, decide_eq_true_iff]

/-- Beside itself, a named type refers to what its description does. -/
theorem references_rootTree (d : TypeDef) (name : String) :
    (d.rootTree name).node.references.filter (· ≠ name) =
      d.tree.node.references.filter (· ≠ name) := by
  by_cases hself : d = .named name
  · subst hself
    have hany : (Node.scalar .any).references = [] := rfl
    have hname : (named name).tree.node.references = [name] := rfl
    rw [rootTree_self, hany, hname, List.filter_singleton, decide_eq_false (not_not_intro rfl)]
    rfl
  · rw [node_rootTree hself]

/-! ## From the description to the tree that is rendered -/

/-- **The names that are found are the references.**

* `d.tree` refers to the names in the description, from left to right, and these are what is found
  with it: each name once, in the order of their first occurrences.
* `d.rootTree name`, the tree of a type of this name, finds the same without `name`, and refers to
  the same but for it.
* Flattening unions (`flattenSums`) and dropping their repetitions (`dedupOneOf`) neither adds a
  reference to a tree nor takes the last one of a name from it, as what is dropped is equal to
  something that stays.
* `renameRefs` gives each reference the name of its component. So the normal form of a tree with its
  references renamed refers to the components of what the tree refers to. -/
theorem found_lists_references :
    (∀ d : TypeDef, d.tree.node.references = d.mentioned ∧
      d.tree.found = d.tree.node.references.eraseDups) ∧
    (∀ (d : TypeDef) name, (d.rootTree name).found = d.tree.found.filter (· ≠ name) ∧
      (d.rootTree name).node.references.filter (· ≠ name) =
        d.tree.node.references.filter (· ≠ name)) ∧
    (∀ (n : Node) k, k ∈ (n.transform Node.flattenSums).references ↔ k ∈ n.references) ∧
    (∀ (n : Node) k, k ∈ (n.transform Node.dedupOneOf).references ↔ k ∈ n.references) ∧
    (∀ n : Node, n.renameRefs.references = n.references.map TypeName.safeName) ∧
    ∀ (n : Node) k, k ∈ n.normalize.renameRefs.references ↔
      ∃ name ∈ n.references, TypeName.safeName name = k := by
  refine ⟨fun d => ⟨references_tree d, found_tree d⟩,
    fun d name => ⟨found_rootTree d name, references_rootTree d name⟩,
    fun n k => Node.mem_references_transform
      (fun n k => (Node.unionLike_references k).flattenSums n) n,
    fun n k => Node.mem_references_transform
      (fun n k => (Node.unionLike_references k).dedupOneOf n) n,
    Node.references_renameRefs, fun n k => ?_⟩
  rw [Node.references_renameRefs, List.mem_map]
  exact exists_congr fun name => and_congr_left fun _ => Node.mem_references_normalize n

/-- A page with tags and a parent, found as a part of other types and as a type of its own. -/
example :
    let page := struct [⟨"tags", array (sum (named "Tag") (scalar .null)), true, none⟩,
      ⟨"parent", named "Page", false, none⟩, ⟨"main", named "Tag", true, none⟩]
    page.tree.found = ["Tag", "Page"] ∧ (page.rootTree "Page").found = ["Tag"] := by decide

end TypeDef

end JsonShape
