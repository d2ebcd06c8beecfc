import JsonShape.Proofs.Input.Components
import JsonShape.Proofs.Output.Components
import JsonShape.Regex.Pattern

/-!
# Collected documents are self-contained

A document is collected from inputs and outputs alike. Every fragment in it, and every fragment that
it was collected from, refers to components that it lists: documentation mentions all that its
fragment refers to, and the search lists all that is mentioned.

The search keeps one producer for each name, whichever it meets first. So the names that it lists
are those that can be reached if the producers of one name agree on what they mention
(`Components.OneDefinition`), and then the order of the search does not matter.

* `Components.Reachable` relates a name to the producers that are found under it.
* `Components.collect_reachable`: what a search lists, for producers of any kind.
* `Documented` is an input or an output with the definitions that it is read against.
* `Documented.collect_selfContained`: the document of a list of those.
-/

namespace JsonShape

namespace Components

variable {α : Type} {force : α → Doc α} {roots : List (Doc α)} {name : String} {p : α}

/-- The producers that are found under a name, from the `roots` on, where `force` documents a
producer. -/
inductive Reachable (force : α → Doc α) (roots : List (Doc α)) : String → α → Prop
  | root {d : Doc α} {name : String} {p : α} (hd : d ∈ roots) (hp : (name, p) ∈ d.found) :
    Reachable force roots name p
  | found {name next : String} {p q : α} (h : Reachable force roots name p)
    (hq : (next, q) ∈ (force p).found) : Reachable force roots next q

/-- Every name stands for one definition: the producers that are `Reachable` under it have one
fragment, which mentions the same names. -/
def OneDefinition (force : α → Doc α) (roots : List (Doc α)) : Prop :=
  ∀ name p q, Reachable force roots name p → Reachable force roots name q →
    (force p).fragment = (force q).fragment ∧
      (force p).found.names = (force q).found.names

/-- **A search lists what can be reached**, sorted by name, each name with its definition, if there
is a step for each of `names`. -/
theorem collect_reachable (hone : OneDefinition force roots) {names : List String}
    (hnames : ∀ name p, Reachable force roots name p → name ∈ names) {steps : Nat}
    (hsteps : names.length ≤ steps) :
    ∃ components, collect (m := Id) (fun p => pure (force p)) steps roots = some components ∧
      components.Pairwise (fun e f => e.1 < f.1) ∧
      (∀ name, name ∈ components.names ↔ ∃ p, Reachable force roots name p) ∧
      ∀ name p, Reachable force roots name p →
        components.get? name = some (force p).fragment := by
  obtain ⟨components, hcollect, hclosed, hroots⟩ := collect_closed (Q := Reachable force roots)
    (fun name p h e he => h.found he) hnames hsteps (fun d hd e he => .root hd he)
  have hlisted : ∀ name p, Reachable force roots name p → name ∈ components.names := by
    intro name p h
    induction h with
    | root hd hp => exact hroots _ hd _ (List.mem_map_of_mem hp)
    | @found name next p q h hq ih =>
      -- the producer that was taken for the name mentions what this one does
      obtain ⟨f, hf⟩ := Dict.exists_get? ih
      obtain ⟨p', hp', -, hfound⟩ := hclosed name f hf
      have hnext : next ∈ (force p').found.names :=
        (hone name p p' h hp').2 ▸ List.mem_map_of_mem hq
      exact hfound next hnext
  refine ⟨components, hcollect, pairwise_lt_collect hcollect, fun name => ⟨fun h => ?_, ?_⟩, ?_⟩
  · obtain ⟨f, hf⟩ := Dict.exists_get? h
    obtain ⟨p, hp, -⟩ := hclosed name f hf
    exact ⟨p, hp⟩
  · rintro ⟨p, hp⟩
    exact hlisted name p hp
  · intro name p hp
    obtain ⟨f, hf⟩ := Dict.exists_get? (hlisted name p hp)
    obtain ⟨q, hq, hfq, -⟩ := hclosed name f hf
    rw [hf, hfq, (hone name p q hp hq).1]

end Components

/-! ## Inputs and outputs together -/

/-- The documentation with its producers changed. -/
def Doc.mapProducers {α β : Type} (f : α → β) (d : Doc α) : Doc β :=
  ⟨d.fragment, d.found.mapValues f⟩

theorem Doc.names_mapProducers {α β : Type} (f : α → β) (d : Doc α) :
    (d.mapProducers f).found.names = d.found.names := by
  unfold mapProducers Dict.mapValues Dict.names
  rw [List.map_map]
  rfl

theorem Doc.Covers.mapProducers {α β : Type} {d : Doc α} (h : d.Covers) (f : α → β) :
    (d.mapProducers f).Covers := by
  unfold Covers
  rw [names_mapProducers]
  exact h

/-- A tree with the definitions that it is read against. -/
inductive Documented [Regex.Engine]
  | input (defs : Dict Input) (i : Input)
  | output (defs : Dict Output) (o : Output)

namespace Documented

variable [Regex.Engine]

/-- The documentation of a tree, the components with the same definitions. -/
def doc : Documented → Doc Documented
  | input defs i => (Input.doc defs i).mapProducers (input defs)
  | output defs o => (Output.doc defs o).mapProducers (output defs)

/-- The components that a tree and its definitions name. -/
def mentionable : Documented → List String
  | input defs i => defs.flatMap (fun e => e.2.referenceNames) ++ i.referenceNames
  | output defs o => defs.flatMap (fun e => e.2.referenceNames) ++ o.referenceNames

variable {t : Documented} {roots : List Documented}

/-- The document of trees, if `steps` are enough for it. -/
def collect (steps : Nat) (roots : List Documented) : Option (Dict Json) :=
  let all : Id (Option (Dict Json)) :=
    Components.collect (fun t => pure t.doc) steps (roots.map doc)
  all.run

/-- What the documentation of a tree mentions is named by the tree or by its definitions. -/
theorem found_subset {name : String} {p : Documented} (h : (name, p) ∈ t.doc.found) :
    name ∈ t.mentionable ∧ p.mentionable ⊆ t.mentionable := by
  cases t with
  | input defs i =>
    obtain ⟨⟨n, q⟩, hq, heq⟩ := List.mem_map.1 h
    obtain ⟨rfl, rfl⟩ := Prod.mk.inj heq
    have hdefs : ∀ e ∈ defs, e.2.referenceNames ⊆ (input defs i).mentionable :=
      fun e he n hn => List.mem_append_left _ (List.mem_flatMap.2 ⟨e, he, hn⟩)
    have hnames : Input.referenceNames (.referenced q n) ⊆ (input defs i).mentionable :=
      Input.found_of_closed
        (P := fun j => j.referenceNames ⊆ (input defs i).mentionable)
        (fun _ _ hj hk => List.Subset.trans (Input.referenceNames_subset hk) hj)
        (fun _ j _ hj => hdefs _ (Dict.mem_of_get? hj))
        (List.subset_append_right _ _) (n, q) hq
    refine ⟨hnames (.head _), List.append_subset.2 ⟨List.subset_append_left _ _, ?_⟩⟩
    exact fun m hm => hnames (.tail _ hm)
  | output defs o =>
    obtain ⟨⟨n, q⟩, hq, heq⟩ := List.mem_map.1 h
    obtain ⟨rfl, rfl⟩ := Prod.mk.inj heq
    have hdefs : ∀ e ∈ defs, e.2.referenceNames ⊆ (output defs o).mentionable :=
      fun e he n hn => List.mem_append_left _ (List.mem_flatMap.2 ⟨e, he, hn⟩)
    have hnames : Output.referenceNames (.referenced q n) ⊆ (output defs o).mentionable :=
      Output.found_of_closed
        (P := fun j => j.referenceNames ⊆ (output defs o).mentionable)
        (fun _ _ hj hk => List.Subset.trans (Output.referenceNames_subset hk) hj)
        (fun _ _ _ _ hj => Output.referenceNames_of_resolve? hdefs hj)
        (List.subset_append_right _ _) (n, q) hq
    refine ⟨hnames (.head _), List.append_subset.2 ⟨List.subset_append_left _ _, ?_⟩⟩
    exact fun m hm => hnames (.tail _ hm)

/-- The documentation of a tree mentions all that its fragment refers to. -/
theorem covers_doc (t : Documented) : t.doc.Covers := by
  cases t with
  | input defs i => exact (Input.covers_docAt _ i).mapProducers _
  | output defs o => exact (Output.covers_docAt _ o).mapProducers _

/-- What can be reached is named by the roots or by their definitions. -/
theorem mem_mentionable_of_reachable {name : String} {p : Documented}
    (h : Components.Reachable doc (roots.map doc) name p) :
    name ∈ roots.flatMap mentionable ∧ p.mentionable ⊆ roots.flatMap mentionable := by
  induction h with
  | root hd hp =>
    obtain ⟨t, ht, rfl⟩ := List.mem_map.1 hd
    have hroot : t.mentionable ⊆ roots.flatMap mentionable :=
      fun n hn => List.mem_flatMap.2 ⟨t, ht, hn⟩
    obtain ⟨hname, hsub⟩ := found_subset hp
    exact ⟨hroot hname, List.Subset.trans hsub hroot⟩
  | found _ hq ih =>
    obtain ⟨hname, hsub⟩ := found_subset hq
    exact ⟨ih.2 hname, List.Subset.trans hsub ih.2⟩

/-- **Collected documents are self-contained.** For inputs and outputs whose component names stand
for one definition each, collecting ends: a step for each name that is written in the trees and in
their definitions (`mentionable`) is enough. The document `components` is sorted by name and lists
exactly the names that can be reached, each with its definition; every reference in a root or in a
component names a component of the document. -/
theorem collect_selfContained (roots : List Documented)
    (hone : Components.OneDefinition doc (roots.map doc)) (steps : Nat)
    (hsteps : (roots.flatMap mentionable).length ≤ steps) :
    ∃ components, collect steps roots = some components ∧
      components.Pairwise (fun e f => e.1 < f.1) ∧
      (∀ name, name ∈ components.names ↔
        ∃ p, Components.Reachable doc (roots.map doc) name p) ∧
      (∀ name p, Components.Reachable doc (roots.map doc) name p →
        components.get? name = some p.doc.fragment) ∧
      (∀ t ∈ roots, Fragment.RefersWithin components.names t.doc.fragment) ∧
      ∀ f ∈ components.values, Fragment.RefersWithin components.names f := by
  obtain ⟨components, hcollect, hsorted, hnames, hget⟩ := Components.collect_reachable hone
    (fun name p h => (mem_mentionable_of_reachable h).1) hsteps
  refine ⟨components, hcollect, hsorted, hnames, hget, fun t ht => ?_, fun f hf => ?_⟩
  · refine (covers_doc t).mono fun n hn => (hnames n).2 ?_
    obtain ⟨⟨n, p⟩, hp, rfl⟩ := List.mem_map.1 hn
    exact ⟨p, .root (List.mem_map_of_mem ht) hp⟩
  · -- a component is the fragment of a producer that can be reached
    obtain ⟨⟨name, f⟩, hmem, rfl⟩ := List.mem_map.1 hf
    obtain ⟨p, hp⟩ := (hnames name).1 (List.mem_map_of_mem hmem)
    have hnodup : components.names.Nodup :=
      List.pairwise_map.2 (hsorted.imp fun hlt => ne_of_lt hlt)
    have hfp : f = p.doc.fragment := by
      have hgetf := (Dict.get?_eq_some_iff hnodup).2 hmem
      exact Option.some.inj (hgetf.symm.trans (hget name p hp))
    rw [hfp]
    refine (covers_doc p).mono fun n hn => (hnames n).2 ?_
    obtain ⟨⟨n, q⟩, hq, rfl⟩ := List.mem_map.1 hn
    exact ⟨q, hp.found hq⟩

end Documented

namespace Documented

attribute [local instance] Regex.Engine.standard

/-- People, defined by themselves, next to a named output. -/
theorem collect_selfContained_people :
    let person : Input := .object [⟨"friends", .list (.defer "Person"), false, none⟩]
    let defs : Dict Input := [("Person", .referenced person "Person")]
    let roots : List Documented :=
      [.input defs (.defer "Person"), .output [] (.referenced .integer "Count")]
    Components.OneDefinition doc (roots.map doc) ∧
      ∃ components, collect 2 roots = some components ∧
        components.names = ["Count", "Person"] ∧
        ∀ f ∈ components.values, Fragment.RefersWithin components.names f := by
  intro person defs roots
  have hreachable : ∀ name p, Components.Reachable doc (roots.map doc) name p →
      (name = "Person" ∧ p = .input defs person) ∨ (name = "Count" ∧ p = .output [] .integer) := by
    intro name p h
    induction h with
    | root hd hp =>
      simp only [roots, List.map_cons, List.map_nil, List.mem_cons, List.not_mem_nil,
        or_false] at hd
      rcases hd with rfl | rfl
      · exact Or.inl (Prod.mk.inj (List.mem_singleton.1 hp))
      · exact Or.inr (Prod.mk.inj (List.mem_singleton.1 hp))
    | found h hq ih =>
      rcases ih with ⟨-, rfl⟩ | ⟨-, rfl⟩
      · exact Or.inl (Prod.mk.inj (List.mem_singleton.1 hq))
      · exact absurd hq List.not_mem_nil
  have hone : Components.OneDefinition doc (roots.map doc) := by
    intro name p q hp hq
    rcases hreachable name p hp with ⟨rfl, rfl⟩ | ⟨rfl, rfl⟩ <;>
      rcases hreachable _ q hq with ⟨hname, rfl⟩ | ⟨hname, rfl⟩
    · exact ⟨rfl, rfl⟩
    · exact absurd hname (by decide)
    · exact absurd hname (by decide)
    · exact ⟨rfl, rfl⟩
  obtain ⟨components, hcollect, -, -, -, -, hrefers⟩ :=
    collect_selfContained roots hone 2 (Nat.le_refl 2)
  refine ⟨hone, components, hcollect, ?_, hrefers⟩
  obtain rfl := Option.some.inj hcollect
  have hle : ¬"Person" < "Count" := by decide
  show Dict.names (Dict.insertSorted ("Person", _) [("Count", _)]) = ["Count", "Person"]
  rw [Dict.insertSorted, if_neg hle]
  rfl

end Documented

end JsonShape
