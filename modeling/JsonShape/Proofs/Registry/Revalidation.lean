import JsonShape.Proofs.Registry.Guarded
import JsonShape.Proofs.TypeDef.Revalidation
import JsonShape.Regex.Pattern

/-!
# Accepted values are accepted again

What an entry of a guarded registry accepts, the entry accepts again, and without unions it is not
changed any more (`Registry.revalidates`). Guardedness makes sure that the left side of a union has
an answer for the value that the right side left.
-/

namespace JsonShape

namespace Registry

variable [Regex.Engine] {registry : Registry} {inputs : Dict Input} {root name : String}
  {v w : Json}

theorem projects_of_lookup (h : registry.inputs = .ok inputs) (limit : Nat)
    (hname : registry.Reaches root name)
    (hw : Input.lookup inputs limit name v = some (.ok w)) : v.Projects w := by
  refine lookup_induction (P := fun _ v w => v.Projects w) h ?_ limit hname hw
  exact fun limit name d i v w _ _ hi ih hw => TypeDef.projects_of_input hi ih hw

/-- The answers of definitions that are looked up without a limit. -/
theorem lookup_of_meaning {r : Checked} (hr : meaning inputs name v = some r) :
    ∃ limit, Input.lookup inputs limit name v = some r := by
  obtain ⟨entry, hentry, hcall⟩ := Option.bind_eq_some_iff.1 hr
  exact ⟨_, lookup_of_call hentry hcall⟩

/-- **What a type accepts, it accepts again**, though it may read the result `w` otherwise. -/
theorem Guarded.accepts_again (hguarded : registry.Guarded root) (h : registry.inputs = .ok inputs)
    (hroot : registry.contains root) (limit : Nat) (hname : registry.Reaches root name)
    (hw : Input.lookup inputs limit name v = some (.ok w)) :
    Input.Accepts (meaning inputs) (.defer name) w := by
  refine lookup_induction (P := fun name _ w => Input.Accepts (meaning inputs) (.defer name) w) h
    ?_ limit hname hw
  intro limit name d i v w hname hd hi ih hw
  have hrereads : ∀ n, d.Mentions n →
      TypeDef.Rereads (Input.lookup inputs limit) (meaning inputs) n := by
    intro n hn
    have hreaches : registry.Reaches root n := hname.tail ⟨d, hd, hn⟩
    refine ⟨fun u => hguarded.answers h hroot hreaches u, fun u y hy => ?_, ih n hn⟩
    obtain ⟨limit, hlimit⟩ := lookup_of_meaning hy
    exact projects_of_lookup h limit hreaches hlimit
  obtain ⟨w', hw'⟩ := TypeDef.accepts_again hi hrereads hw
  obtain ⟨i', hi', hinput⟩ := exists_input h hd
  obtain rfl : i' = i := Except.ok.inj (hi'.symm.trans hi)
  refine ⟨w', ?_⟩
  show meaning inputs name w = _
  rw [meaning_eq, hinput]
  exact hw'

/-- **Without unions, what a type accepts is not changed any more**: `w` is read as `w`. -/
theorem accepts_unchanged (h : registry.inputs = .ok inputs)
    (hfree : ∀ n d, registry.Reaches root n → registry.get? n = some d → d.SumFree) (limit : Nat)
    (hname : registry.Reaches root name)
    (hw : Input.lookup inputs limit name v = some (.ok w)) :
    meaning inputs name w = some (.ok w) := by
  refine lookup_induction (P := fun name _ w => meaning inputs name w = some (.ok w)) h ?_ limit
    hname hw
  intro limit name d i v w hname hd hi ih hw
  have hsame : Input.callWith (meaning inputs) i w = some (.ok w) :=
    TypeDef.accepts_unchanged hi (hfree name d hname hd) ih hw
  obtain ⟨i', hi', hinput⟩ := exists_input h hd
  obtain rfl : i' = i := Except.ok.inj (hi'.symm.trans hi)
  rw [meaning_eq, hinput]
  exact hsame

/-- **Accepted values are accepted again.** In a registry with an input for every type, let no type
that the entry `name` reaches lead back to itself (`Guarded`). What the entry accepts as `w`, it
accepts again; and if no union stands in a description that the entry reaches (`SumFree`), it
accepts `w` as `w`, the order of keys included. -/
theorem revalidates (registry : Registry) (inputs : Dict Input) (h : registry.inputs = .ok inputs)
    (name : String) (entry : Input) (hentry : inputs.get? name = some entry)
    (hguarded : registry.Guarded name) (v w : Json)
    (hw : Input.call inputs entry v = some (.ok w)) :
    (∃ w', Input.call inputs entry w = some (.ok w')) ∧
      ((∀ n d, registry.Reaches name n → registry.get? n = some d → d.SumFree) →
        Input.call inputs entry w = some (.ok w)) := by
  have hroot : registry.contains name := contains_of_entry h hentry
  have hmeaning : ∀ u, meaning inputs name u = Input.call inputs entry u := fun u => by
    rw [meaning, hentry, Option.bind_some]
  have hlookup := lookup_of_call hentry hw
  constructor
  · obtain ⟨w', hw'⟩ := hguarded.accepts_again h hroot _ .refl hlookup
    exact ⟨w', (hmeaning w).symm.trans hw'⟩
  · intro hfree
    exact (hmeaning w).symm.trans (accepts_unchanged h hfree _ .refl hlookup)

end Registry

namespace Registry

attribute [local instance] Regex.Engine.standard

/-- A union whose left side takes what the right side leaves, and pages without unions. -/
theorem revalidates_pages :
    let registry : Registry := [
      ("Mixed", .sum (.struct [⟨"n", .scalar .string, false, none⟩])
        (.struct [⟨"m", .scalar .integer, false, none⟩])),
      ("Page", .struct [⟨"rank", .constrained (.scalar .integer) [.minimum .zero], true, none⟩,
        ⟨"pages", .array (.named "Page"), true, none⟩])]
    let mixed : Input := .referenced (.either
      (.object [⟨"n", .text none, false, none⟩]) (.object [⟨"m", .integer, false, none⟩])) "Mixed"
    let rank : Input := .inRange .integer { Interval.full with lower := .included .zero }
    let page : Input := .referenced (.object [⟨"rank", rank, true, none⟩,
      ⟨"pages", .list (.defer "Page"), true, none⟩]) "Page"
    let inputs : Dict Input := [("Mixed", mixed), ("Page", page)]
    let both : Json := .object [("n", .null), ("m", .number (.int 1))]
    let leaf : Json := .object [("rank", .number (.int 2)), ("pages", .array [])]
    let given : Json := .object [("pages", .array [leaf]), ("title", .null),
      ("rank", .number (.int 1))]
    let taken : Json := .object [("rank", .number (.int 1)), ("pages", .array [leaf])]
    registry.inputs = .ok inputs ∧
      (Input.call inputs mixed both = some (.ok (.object [("m", .number (.int 1))])) ∧
        ∃ w, Input.call inputs mixed (.object [("m", .number (.int 1))]) = some (.ok w)) ∧
      Input.call inputs page given = some (.ok taken) ∧
        Input.call inputs page taken = some (.ok taken) := by
  intro registry mixed rank page inputs both leaf given taken
  have hinputs : registry.inputs = .ok inputs := rfl
  have hentries : ∀ n d, registry.get? n = some d →
      d.heads = [] ∧ (n = "Page" → d.SumFree ∧ ∀ k, d.Mentions k → k = "Page") := by
    intro n d hd
    have hmem := Dict.mem_of_get? hd
    simp only [registry, List.mem_cons, Prod.mk.injEq, List.not_mem_nil, or_false] at hmem
    rcases hmem with ⟨rfl, rfl⟩ | ⟨rfl, rfl⟩
    · exact ⟨rfl, by simp⟩
    · refine ⟨rfl, fun _ => ⟨fun l r hsum => ?_, fun k hk => ?_⟩⟩
      · simp [TypeDef.parts, TypeDef.keyParts] at hsum
      · simpa using hk
  have hguarded : ∀ root, registry.Guarded root := by
    intro root name _ hname
    obtain ⟨b, ⟨d, hd, hb⟩, -⟩ := Relation.TransGen.head'_iff.1 hname
    rw [(hentries _ _ hd).1] at hb
    cases hb
  have hreaches : ∀ n, registry.Reaches "Page" n → n = "Page" := by
    intro n hn
    induction hn with
    | refl => rfl
    | tail _ hm ih =>
      obtain ⟨d, hd, hk⟩ := hm
      exact ((hentries _ _ hd).2 ih).2 _ hk
  have hboth : Input.call inputs mixed both =
      some (.ok (.object [("m", .number (.int 1))])) := rfl
  have hgiven : Input.call inputs page given = some (.ok taken) := by
    set_option maxRecDepth 3000 in rfl
  have hmixed := revalidates registry inputs hinputs "Mixed" mixed rfl (hguarded _) _ _ hboth
  have hpage := revalidates registry inputs hinputs "Page" page rfl (hguarded _) _ _ hgiven
  exact ⟨hinputs, ⟨hboth, hmixed.1⟩, hgiven,
    hpage.2 fun n d hn hd => ((hentries n d hd).2 (hreaches n hn)).1⟩

end Registry

end JsonShape
