import JsonShape.Proofs.Registry.Components
import JsonShape.Proofs.Registry.Guarded
import JsonShape.Regex.Pattern

/-!
# Compiling preserves meaning

A registry is compiled into fragments, and it is turned into inputs that check values. The two agree
(`Compiler.preserves_meaning`): an accepted value satisfies the fragment that the compiler stores,
read against the components that it lists, and where no rule narrows a type and no type leads back
to itself, a value that satisfies the fragment is accepted.

Types are documented by name. So in the fragments a name stands for what satisfies its component
(`Registry.Satisfied`), in the inputs for what is accepted; the first is compared with the second by
induction on the number of lookups, and the second with the first by induction on the value.
-/

namespace JsonShape

namespace Registry

variable [Regex.Engine] {registry : Registry} {inputs : Dict Input} {components : Dict Json}
  {root name : String} {d : TypeDef} {v : Json}

/-! ## Components -/

/-- Every record of the registry has distinct keys. -/
def DistinctKeys (registry : Registry) : Prop := ∀ e ∈ registry, e.2.DistinctKeys

/-- The types of the registry have components of different names: `safeName` tells them apart. -/
def DistinctComponents (registry : Registry) : Prop := ∀ a ∈ registry.names, ∀ b ∈ registry.names,
  TypeName.safeName a = TypeName.safeName b → a = b

/-- Every type reachable from `root` is documented by its component, which is one of
`components`. -/
def Documented (registry : Registry) (root : String) (components : Dict Json) : Prop :=
  ∀ name d, registry.Reaches root name → registry.get? name = some d →
    components.get? (TypeName.safeName name) = some (Compiler.fragment (d.rootTree name).node)

/-- The value satisfies the component of the type. -/
def Satisfied (components : Dict Json) (name : String) (v : Json) : Prop :=
  Satisfies components (Fragment.reference (TypeName.safeName name)) v

omit [Regex.Engine] in
theorem DistinctKeys.of_get? (h : registry.DistinctKeys) (hd : registry.get? name = some d) :
    d.DistinctKeys := h _ (Dict.mem_of_get? hd)

/-- A tree keeps its values while it is turned into a fragment. -/
theorem satisfies_fragment {n : Node} (h : n.Proper) :
    Satisfies components (Compiler.fragment n) v ↔ n.Admits (Satisfied components) v := by
  rw [Compiler.fragment, Node.satisfies_render h.renameRefs_normalize, Node.admits_renameRefs,
    Node.admits_normalize]
  rfl

omit [Regex.Engine] in
/-- The tree of a type described as itself has every value. -/
theorem admits_rootTree {named : String → Json → Prop} :
    (d.rootTree name).node.Admits named v ↔ d = .named name ∨ d.Admits named v := by
  cases d with
  | named target =>
    rw [TypeDef.rootTree]
    split
    · next h => exact iff_of_true rfl (Or.inl (h ▸ rfl))
    · next h => exact (or_iff_right fun heq => h (TypeDef.named.inj heq)).symm
  | _ => exact (or_iff_right fun heq => by cases heq).symm

omit [Regex.Engine] in
theorem proper_rootTree (h : d.DistinctKeys) (name : String) : (d.rootTree name).node.Proper := by
  cases d with
  | named target =>
    rw [TypeDef.rootTree]
    split
    · exact .primitive _ _
    · exact .primitive _ _
  | _ => exact h.proper

/-- The component of a type has the values of its description. -/
theorem satisfied_iff (hdoc : registry.Documented root components) (hkeys : registry.DistinctKeys)
    (hname : registry.Reaches root name) (hd : registry.get? name = some d) :
    Satisfied components name v ↔ d = .named name ∨ d.Admits (Satisfied components) v := by
  rw [Satisfied, Fragment.satisfies_reference, hdoc name d hname hd, ← admits_rootTree,
    ← satisfies_fragment (proper_rootTree (hkeys.of_get? hd) name)]
  simp

/-! ## The two directions -/

/-- **What is accepted satisfies the component**, by induction on `limit`, the number of lookups. -/
theorem satisfied_of_accepts (hdoc : registry.Documented root components)
    (hkeys : registry.DistinctKeys) (h : registry.inputs = .ok inputs) (limit : Nat)
    (hname : registry.Reaches root name)
    (hv : Input.Accepts (Input.lookup inputs limit) (.defer name) v) :
    Satisfied components name v := by
  obtain ⟨w, hw⟩ := hv
  refine lookup_induction (P := fun name v _ => Satisfied components name v) h ?_ limit hname hw
  intro limit name d i v w hname hd hi ih hw
  refine (satisfied_iff hdoc hkeys hname hd).2 (Or.inr ?_)
  exact TypeDef.admits_of_accepts hi (hkeys.of_get? hd) (fun n hn u ⟨y, hy⟩ => ih n hn u y hy)
    ⟨w, hw⟩

/-- **What satisfies the component is accepted**, by induction on the value, if no rule and no type
that leads back to itself (`Guarded`) can be reached. -/
theorem accepts_of_satisfied (hdoc : registry.Documented root components)
    (hkeys : registry.DistinctKeys) (h : registry.inputs = .ok inputs)
    (hroot : registry.contains root) (hguarded : registry.Guarded root)
    (hfree : ∀ name d, registry.Reaches root name → registry.get? name = some d → d.Unconstrained)
    (hname : registry.Reaches root name) (hv : Satisfied components name v) :
    Input.Accepts (meaning inputs) (.defer name) v := by
  refine hguarded.induction (P := fun name v => Satisfied components name v →
    Input.Accepts (meaning inputs) (.defer name) v) (fun name d v hname hd ih hv => ?_)
    (fun _ => contains_of_reaches h hroot) hname v hv
  have hanswers := hguarded.answers h hroot hname v
  change (meaning inputs name v).isSome at hanswers
  change ∃ w, meaning inputs name v = some (.ok w)
  obtain ⟨i, hi, hinput⟩ := exists_input h hd
  rw [meaning_eq, hinput] at hanswers ⊢
  -- a type described as itself would lead back to itself
  have hself : d ≠ .named name := fun hself =>
    hguarded name hname (.single ⟨d, hd, hself ▸ List.mem_singleton.2 rfl⟩)
  have hadmits := ((satisfied_iff hdoc hkeys hname hd).1 hv).resolve_left hself
  exact TypeDef.accepts_of_admits (i := i) hi (hkeys.of_get? hd) (hfree name d hname hd)
    (fun n u hu => ih n u hu) hanswers hadmits

end Registry

namespace Compiler

variable {registry : Registry} {c : Compiler}

/-- The component of a documented type is its fragment. -/
theorem Settled.get?_schemas (h : Settled registry c) (hnames : registry.DistinctComponents)
    {name : String} {f : Json} (hf : c.finished.get? name = some f) :
    c.schemas.get? (TypeName.safeName name) = some f := by
  have hsub : ∀ k, c.isFinished k → k ∈ registry.names := fun k hk =>
    Dict.contains_iff.1 (h.contains_of_isFinished hk)
  exact get?_schemas_of_distinct h.nodup (fun a b ha hb => hnames a (hsub a ha) b (hsub b hb)) hf

/-- **Compiling preserves meaning.** For a registry with an input for every type, with distinct keys
in every record and distinct names of components, and for an entry `name`, added after any
`history`:

* what the entry's input accepts satisfies the `fragment` stored for the entry;
* if no type reachable from the entry is constrained by a rule (`Unconstrained`), and none leads
  back to itself (`Guarded`), what satisfies the fragment is accepted. -/
theorem preserves_meaning [Regex.Engine] (registry : Registry) (inputs : Dict Input)
    (h : registry.inputs = .ok inputs) (hkeys : registry.DistinctKeys)
    (hnames : registry.DistinctComponents) (name : String) (entry : Input)
    (hentry : inputs.get? name = some entry) (history : List String) :
    ∃ c fragment, add registry (addAll registry new history) name = (.ok (), c) ∧
      c.finished.get? name = some fragment ∧
      (∀ v w, Input.call inputs entry v = some (.ok w) → Satisfies c.schemas fragment v) ∧
      ((∀ m d, registry.Reaches name m → registry.get? m = some d → d.Unconstrained) →
        registry.Guarded name →
        ∀ v, Satisfies c.schemas fragment v → ∃ w, Input.call inputs entry v = some (.ok w)) := by
  obtain ⟨-, hnone⟩ | ⟨d, i, hd, -, -⟩ := Registry.get?_inputs h name
  · simp [hnone] at hentry
  have hroot : registry.contains name := by simp [Dict.contains, hd]
  have hbefore := (settled_new registry).after_addAll history
  -- all that is reachable is in the registry, so the addition succeeds
  rcases hbefore.add_cases name with ⟨c, hadd, hs, hfin⟩ | ⟨e, m, -, hm, hnone⟩
  · have hget : ∀ m d, registry.Reaches name m → registry.get? m = some d →
        c.finished.get? m = some (fragment (d.rootTree m).node) := fun m d hm hd =>
      hs.get?_finished_iff.2 ⟨(hfin m).2 (Or.inr hm), d, hd, rfl⟩
    have hdoc : registry.Documented name c.schemas := fun m d hm hd =>
      hs.get?_schemas hnames (hget m d hm hd)
    have hself : ∀ v, Satisfies c.schemas (fragment (d.rootTree name).node) v ↔
        Registry.Satisfied c.schemas name v := fun v => by
      rw [Registry.Satisfied, Fragment.satisfies_reference, hdoc name d .refl hd]
      simp
    refine ⟨c, _, hadd, hget name d .refl hd, fun v w hw => ?_, fun hfree hguarded v hv => ?_⟩
    · exact (hself v).2 (Registry.satisfied_of_accepts hdoc hkeys h _ .refl
        ⟨w, Registry.lookup_of_call hentry hw⟩)
    · obtain ⟨w, hw⟩ := Registry.accepts_of_satisfied hdoc hkeys h hroot hguarded hfree .refl
        ((hself v).1 hv)
      change Registry.meaning inputs name v = some (.ok w) at hw
      rw [Registry.meaning, hentry] at hw
      exact ⟨w, hw⟩
  · have hcontains := Registry.contains_of_reaches h hroot hm
    simp [Dict.contains, hnone] at hcontains

end Compiler

namespace Compiler

attribute [local instance] Regex.Engine.standard

/-- Trees with an optional branch, which is null or a tree again. -/
theorem preserves_meaning_tree :
    let registry : Registry := [("Api::Tree", .struct [
      ⟨"label", .enum [.string "a", .null], true, none⟩,
      ⟨"branch", .sum (.named "Api::Tree") (.scalar .null), false, none⟩])]
    let entry : Input := .referenced (.object [
      ⟨"label", .enum .any [.string "a", .null], true, none⟩,
      ⟨"branch", .either (.defer "Api::Tree") .null, false, none⟩]) "Api.Tree"
    ∃ c fragment, add registry new "Api::Tree" = (.ok (), c) ∧
      c.finished.get? "Api::Tree" = some fragment ∧
      ∀ v, (∃ w, Input.call [("Api::Tree", entry)] entry v = some (.ok w)) ↔
        Satisfies c.schemas fragment v := by
  intro registry entry
  have hkeys : registry.DistinctKeys := by
    intro e he keys hkeys
    obtain rfl := List.mem_singleton.1 he
    simp only [TypeDef.parts, TypeDef.keyParts] at hkeys
    rcases List.mem_cons.1 hkeys with hkeys | hkeys
    · obtain rfl := TypeDef.struct.inj hkeys
      decide
    · simp at hkeys
  have hlead : ∀ a b, ¬registry.LeadsTo a b := by
    rintro a b ⟨d, hd, hb⟩
    obtain ⟨-, rfl⟩ := Prod.mk.inj (List.mem_singleton.1 (Dict.mem_of_get? hd))
    exact List.not_mem_nil hb
  have hguarded : registry.Guarded "Api::Tree" := fun name _ hname => by
    obtain ⟨b, hb, -⟩ := Relation.TransGen.head'_iff.1 hname
    exact hlead name b hb
  have hfree : ∀ m d, registry.Reaches "Api::Tree" m → registry.get? m = some d →
      d.Unconstrained := by
    intro m d _ hd base rules hmem
    obtain ⟨-, rfl⟩ := Prod.mk.inj (List.mem_singleton.1 (Dict.mem_of_get? hd))
    simp [TypeDef.parts, TypeDef.keyParts] at hmem
  have hnames : registry.DistinctComponents := fun a ha b hb _ =>
    (List.mem_singleton.1 ha).trans (List.mem_singleton.1 hb).symm
  obtain ⟨c, fragment, hadd, hget, hsound, hcomplete⟩ := preserves_meaning registry
    [("Api::Tree", entry)] rfl hkeys hnames "Api::Tree" entry rfl []
  exact ⟨c, fragment, hadd, hget, fun v => ⟨fun ⟨w, hw⟩ => hsound v w hw,
    hcomplete hfree hguarded v⟩⟩

end Compiler

end JsonShape
