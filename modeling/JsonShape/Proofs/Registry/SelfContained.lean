import JsonShape.Proofs.Registry.WorkList

/-!
# Compiled documents are self-contained

The fragments that a compilation has stored refer to nothing but each other. A fragment refers to
what the tree of its type does, under the names of components; a tree refers to the types that its
description mentions; and between additions all of those are documented (`Settled`). Where two types
have one component name, the component of the later one stands for both, so nothing has to be
assumed of the names.
-/

namespace JsonShape

namespace Compiler

variable {registry : Registry} {c : Compiler} {name : String} {f : Json}

/-- The fragment of a tree refers to the components of the types that the tree refers to. -/
theorem refersWithin_fragment {names : List String} (n : Node)
    (h : ∀ k ∈ n.references, TypeName.safeName k ∈ names) :
    Fragment.RefersWithin names (fragment n) := by
  refine Node.refersWithin_render _ fun target htarget => ?_
  rw [Node.references_renameRefs] at htarget
  obtain ⟨k, hk, rfl⟩ := List.mem_map.1 htarget
  exact h k ((Node.mem_references_normalize n).1 hk)

/-! ## Stored fragments -/

/-- Every documented type has a component. -/
theorem safeName_mem_schemas (h : c.isFinished name) :
    TypeName.safeName name ∈ c.schemas.names := by
  have hmem : name ∈ c.finished.names := Dict.contains_iff.1 h
  obtain ⟨e, he, rfl⟩ := List.mem_map.1 hmem
  rw [schemas, Dict.mem_names_sortByName, Dict.mem_names_ofList]
  exact List.mem_map.2 ⟨_, List.mem_map.2 ⟨e, he, rfl⟩, rfl⟩

/-- Every component is the fragment of a documented type. -/
theorem exists_of_mem_schemas (h : f ∈ c.schemas.values) : ∃ name, (name, f) ∈ c.finished := by
  obtain ⟨e, he, rfl⟩ := List.mem_map.1 h
  have hmem := Dict.mem_of_mem_ofList ((Dict.perm_sortByName _).mem_iff.1 he)
  obtain ⟨⟨name, f⟩, hf, rfl⟩ := List.mem_map.1 hmem
  exact ⟨name, hf⟩

/-- Between additions, a stored fragment refers to components that `schemas` lists. -/
theorem Settled.refersWithin (h : Settled registry c) (hf : (name, f) ∈ c.finished) :
    Fragment.RefersWithin c.schemas.names f := by
  have hget : c.finished.get? name = some f := (Dict.get?_eq_some_iff h.nodup).2 hf
  obtain ⟨d, hd, rfl⟩ := h.own name f hget
  refine refersWithin_fragment _ fun k hk => safeName_mem_schemas ?_
  -- what the description mentions is documented, as nothing waits
  have hmentions : registry.Mentions name k :=
    ⟨d, hd, TypeDef.mentions_of_mem_references_rootTree hk⟩
  have hknows : c.Knows k := h.closed name k (isFinished_iff.2 ⟨_, hget⟩) hmentions
  exact (knows_iff_of_pending h.pending).1 hknows

/-- **Compiled documents are self-contained.** After any `history` of additions to a new compiler,
failed ones included, whatever `target` a fragment `f` of the document refers to, in itself or in a
schema at any depth, is a component of the document. -/
theorem schemas_selfContained (registry : Registry) (history : List String) :
    ∀ f ∈ (addAll registry new history).schemas.values, ∀ target, Fragment.Refers target f →
      ∃ name ∈ (addAll registry new history).schemas.names,
        target = .string (Fragment.componentPrefix ++ name) := by
  have hsettled := (settled_new registry).after_addAll history
  intro f hf
  obtain ⟨name, hname⟩ := exists_of_mem_schemas hf
  exact hsettled.refersWithin hname

/-- Lists of lists, after an unknown type. -/
theorem schemas_selfContained_tree :
    let registry : Registry := [("Api::Tree", .array (.named "Api::Tree"))]
    let schemas := (addAll registry new ["Api::Forest", "Api::Tree"]).schemas
    let target : Json := .string "#/components/schemas/Api_Tree"
    ∃ f ∈ schemas.values, Fragment.Refers target f ∧
      ∃ name ∈ schemas.names, target = .string (Fragment.componentPrefix ++ name) := by
  intro registry schemas target
  have hmentions : ∀ a b, registry.Mentions a b → b = "Api::Tree" := by
    rintro a b ⟨d, hd, hb⟩
    obtain ⟨-, rfl⟩ := Prod.mk.inj (List.mem_singleton.1 (Dict.mem_of_get? hd))
    exact TypeDef.mentions_named.1 (TypeDef.mentions_array.1 hb)
  have hdefined : ∀ m, registry.Reaches "Api::Tree" m → registry.contains m := by
    intro m hm
    obtain rfl : m = "Api::Tree" := by
      rcases Relation.ReflTransGen.cases_tail hm with heq | ⟨a, -, ha⟩
      · exact heq
      · exact hmentions a m ha
    rfl
  have hfinished : (addAll registry new ["Api::Forest", "Api::Tree"]).finished.get? "Api::Tree" =
      some (fragment (TypeDef.rootTree "Api::Tree" (.array (.named "Api::Tree"))).node) :=
    get?_finished_addAll.2
      ⟨added_iff.2 ⟨"Api::Tree", .tail _ (.head _), hdefined, .refl⟩, _, rfl, rfl⟩
  -- the one component is the fragment of the one type
  obtain ⟨f, hf⟩ := Dict.exists_get? (safeName_mem_schemas (isFinished_iff.2 ⟨_, hfinished⟩))
  have hmem : f ∈ schemas.values := List.mem_map.2 ⟨_, Dict.mem_of_get? hf, rfl⟩
  have hrefers : Fragment.Refers target f := by
    have hsettled := (settled_new registry).after_addAll ["Api::Forest", "Api::Tree"]
    obtain ⟨name, hname⟩ := exists_of_mem_schemas hmem
    obtain ⟨d, hd, rfl⟩ := hsettled.own name f ((Dict.get?_eq_some_iff hsettled.nodup).2 hname)
    obtain ⟨rfl, rfl⟩ := Prod.mk.inj (List.mem_singleton.1 (Dict.mem_of_get? hd))
    have hitem : Fragment.Refers target (.object [("$ref", target)]) := .here rfl
    exact @Fragment.Refers.under target "items" _ _ _ rfl (.head _) hitem
  exact ⟨f, hmem, hrefers, schemas_selfContained registry _ f hmem target hrefers⟩

end Compiler

end JsonShape
