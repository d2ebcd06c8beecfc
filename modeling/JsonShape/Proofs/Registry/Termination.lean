import JsonShape.Proofs.Registry.Guarded
import JsonShape.Regex.Pattern

/-!
# Guarded recursion ends

Inputs of a registry look one another up by name. Where no type leads back to itself through named
references, unions and constrained types alone, every chain of lookups passes through a key of a
record or the items of an array, and each of these takes a part of the value. So checking ends
(`Registry.checks_end`), and lookups can be followed without a limit.

* `Guarded.terminates`: no chain of calls goes on for ever, by induction on the depth of the value
  and, on one value, on the types that lead on.
-/

namespace JsonShape

namespace Registry

variable [Regex.Engine] {registry : Registry} {inputs : Dict Input} {root name : String}

/-- **No chain of calls goes on for ever in a guarded registry**: every type and value
`Terminates`. -/
theorem Guarded.terminates (hguarded : registry.Guarded root) (h : registry.inputs = .ok inputs)
    (hroot : registry.contains root) (hname : registry.Reaches root name) (v : Json) :
    Input.Terminates inputs (.defer name) v := by
  refine hguarded.induction (P := fun name v => Input.Terminates inputs (.defer name) v)
    (fun name d v hname hd ih => ?_) (fun _ => contains_of_reaches h hroot) hname v
  obtain ⟨i, hi, hinput⟩ := exists_input h hd
  have hinner : Input.Terminates inputs i v :=
    TypeDef.of_scope (fun _ _ _ => Input.terminates_of_asks) hi ih
  refine Input.terminates_defer fun entry hentry => ?_
  obtain rfl := Option.some.inj (hinput.symm.trans hentry)
  refine Input.terminates_of_asks nofun fun j u hask => ?_
  cases hask with
  | same hj =>
    obtain rfl := List.mem_singleton.1 hj
    exact hinner

/-- **Guarded recursion ends.** In a registry with an input for every type, let no type that the
entry `name` reaches lead back to itself (`Guarded`). Then for every value `v` no chain of calls
goes on for ever (`Input.Terminates`), and there is one answer `r`, which every limit gives that is
great enough, and which lookups give that are followed without a limit (`Input.Unlimited`). -/
theorem checks_end (registry : Registry) (inputs : Dict Input) (h : registry.inputs = .ok inputs)
    (name : String) (entry : Input) (hentry : inputs.get? name = some entry)
    (hguarded : registry.Guarded name) (v : Json) :
    Input.Terminates inputs entry v ∧ ∃ r,
      (∀ limit, inputs.length * (v.depth + 1) ≤ limit →
        Input.callAt inputs limit entry v = some r) ∧
      ∀ deferred, Input.Unlimited inputs deferred → Input.callWith deferred entry v = some r := by
  have hroot : registry.contains name := contains_of_entry h hentry
  have hterminates : Input.Terminates inputs (.defer name) v := hguarded.terminates h hroot .refl v
  have hanswers : (meaning inputs name v).isSome := hguarded.answers h hroot .refl v
  rw [meaning, hentry, Option.bind_some] at hanswers
  obtain ⟨r, hr⟩ := Option.isSome_iff_exists.1 hanswers
  refine ⟨hterminates.inv (.lookup hentry), r, fun limit hlimit => ?_, fun deferred hdeferred => ?_⟩
  · exact Input.callAt_le hlimit entry v r hr
  · exact Input.callAt_le_of_unlimited hdeferred _ entry v r hr

end Registry

namespace Registry

attribute [local instance] Regex.Engine.standard

/-- Trees of texts. A node is a tree or a text, which leads on to trees, and these hold nodes in an
array. -/
theorem checks_end_tree :
    let registry : Registry := [
      ("Tree", .struct [⟨"nodes", .array (.named "Node"), true, none⟩]),
      ("Node", .sum (.named "Tree") (.scalar .string))]
    let node : Input := .referenced (.either (.defer "Tree") (.text none)) "Node"
    let inputs : Dict Input := [
      ("Tree", .referenced (.object [⟨"nodes", .list (.defer "Node"), true, none⟩]) "Tree"),
      ("Node", node)]
    let v : Json := .object [("nodes", .array [.string "a", .object [("nodes", .array [])]])]
    registry.inputs = .ok inputs ∧ Input.Terminates inputs node v ∧
      ∀ limit, inputs.length * (v.depth + 1) ≤ limit →
        Input.callAt inputs limit node v = some (.ok v) := by
  intro registry node inputs v
  have hlead : ∀ a b, registry.LeadsTo a b → a = "Node" ∧ b = "Tree" := by
    rintro a b ⟨d, hd, hb⟩
    have hmem := Dict.mem_of_get? hd
    simp only [registry, List.mem_cons, Prod.mk.injEq, List.not_mem_nil, or_false] at hmem
    rcases hmem with ⟨-, rfl⟩ | ⟨rfl, rfl⟩
    · cases hb
    · simpa [TypeDef.heads] using hb
  have hguarded : registry.Guarded "Node" := by
    intro name _ hname
    obtain ⟨b, hb, -⟩ := Relation.TransGen.head'_iff.1 hname
    obtain ⟨c, -, hc⟩ := Relation.TransGen.tail'_iff.1 hname
    have hsame : "Node" = "Tree" := (hlead _ _ hb).1.symm.trans (hlead _ _ hc).2
    simp at hsame
  obtain ⟨hends, r, hr, -⟩ := checks_end registry inputs rfl "Node" node rfl hguarded v
  have hsame : some r = some (.ok v) := (hr _ le_rfl).symm.trans rfl
  exact ⟨rfl, hends, fun limit hlimit => (hr limit hlimit).trans hsame⟩

end Registry

end JsonShape
