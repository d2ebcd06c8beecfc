import JsonShape.Proofs.Registry.SelfContained
import Mathlib.Data.List.Dedup

/-!
# The components of compiled types

A compiler lists the types that it has documented under the names of their components. In these, low
lines stand for the colons of a type's name, so two types can have components of one name; then the
type that was finished later is listed, and the other one is not. `Compiler.schemas_of_history` says
what is listed after any history, and that each type has its own component if and only if no two of
the documented types share a name.

* `TypeName.eq_of_safeName_eq`: names without a low line are told apart.
* `Compiler.get?_schemas_iff`: which fragment stands under a name.
* `Compiler.length_schemas_iff`: when there is a component for each type.
* `Compiler.Settled.exists_of_refers`: what a fragment refers to.
-/

namespace JsonShape

namespace TypeName

/-- Each `separator` back to two colons. -/
def restoreColons (separator : Char) (cs : List Char) : List Char :=
  cs.flatMap fun c => if c = separator then [':', ':'] else [c]

/-- A text without the separator can be restored. -/
theorem restoreColons_replaceColons {separator : Char} {cs : List Char} (h : separator ∉ cs) :
    restoreColons separator (replaceColons separator cs) = cs := by
  unfold restoreColons
  induction cs using replaceColons.induct with
  | case1 rest ih =>
    simp only [List.mem_cons, not_or] at h
    simp [replaceColons, ih h.2.2]
  | case2 c rest hcolons ih =>
    simp only [List.mem_cons, not_or] at h
    simp [replaceColons, Ne.symm h.1, ih h.2]
  | case3 => rfl

/-- Names without a low line are told apart by their components, since `restoreColons` undoes
`safeName`. -/
theorem eq_of_safeName_eq {a b : String} (ha : '_' ∉ a.toList) (hb : '_' ∉ b.toList)
    (h : safeName a = safeName b) : a = b := by
  have hlist : replaceColons '_' a.toList = replaceColons '_' b.toList := String.ofList_injective h
  have hrestored := congrArg (restoreColons '_') hlist
  rw [restoreColons_replaceColons ha, restoreColons_replaceColons hb] at hrestored
  exact String.toList_inj.1 hrestored

end TypeName

namespace Dict

variable {α : Type} {d : Dict α} {entries : List (String × α)} {k : String} {v : α}

/-- The first entry of a name is found. -/
theorem get?_eq_some_iff_first : d.get? k = some v ↔
    ∃ before after, d = before ++ (k, v) :: after ∧ k ∉ names before := by
  constructor
  · intro h
    induction d with
    | nil => cases h
    | cons e rest ih =>
      obtain ⟨l, w⟩ := e
      rw [get?] at h
      split at h
      · next hl =>
        obtain rfl := Option.some.inj h
        exact ⟨[], rest, by rw [hl, List.nil_append], List.not_mem_nil⟩
      · next hl =>
        obtain ⟨before, after, rfl, hnot⟩ := ih h
        exact ⟨(l, w) :: before, after, rfl, by simpa using ⟨Ne.symm hl, hnot⟩⟩
  · rintro ⟨before, after, rfl, hnot⟩
    rw [get?_append, get?_eq_none_iff.2 hnot, Option.none_or, get?, if_pos rfl]

/-- Of the entries of a name, the last one counts. -/
theorem get?_ofList_eq_some_iff : (ofList entries).get? k = some v ↔
    ∃ before after, entries = before ++ (k, v) :: after ∧ k ∉ names after := by
  rw [get?_ofList, get?_eq_some_iff_first]
  constructor
  · rintro ⟨after, before, hsplit, hnot⟩
    refine ⟨before.reverse, after.reverse, ?_, ?_⟩
    · have hreverse := congrArg List.reverse hsplit
      simpa using hreverse
    · rwa [names, List.map_reverse, List.mem_reverse]
  · rintro ⟨before, after, rfl, hnot⟩
    refine ⟨after.reverse, before.reverse, by simp, ?_⟩
    rwa [names, List.map_reverse, List.mem_reverse]

/-- There are as many entries as different names. -/
theorem length_ofList (entries : List (String × α)) :
    (ofList entries).length = (names entries).dedup.length := by
  have hperm : (ofList entries).names.Perm (names entries).dedup := by
    refine (List.perm_ext_iff_of_nodup (nodup_names_ofList entries) (List.nodup_dedup _)).2 ?_
    intro k
    rw [mem_names_ofList, List.mem_dedup]
  rw [← hperm.length_eq, names, List.length_map]

end Dict

namespace Compiler

variable {registry : Registry} {c : Compiler} {name key : String} {f : Json} {d : TypeDef}

/-- The documented types have components of different names: `safeName` tells them apart. -/
def DistinctComponents (c : Compiler) : Prop := ∀ a b, c.isFinished a → c.isFinished b →
  TypeName.safeName a = TypeName.safeName b → a = b

/-- The fragments of the documented types by the names of their components, in the order in which
they were finished; `schemas` lists them. -/
def components (c : Compiler) : List (String × Json) :=
  c.finished.map fun e => (TypeName.safeName e.1, e.2)

theorem names_components (c : Compiler) :
    Dict.names c.components = c.finished.names.map TypeName.safeName := by
  simp only [components, Dict.names, List.map_map]
  rfl

/-- Of the documented types with one component name, the one that was finished last is listed. -/
theorem get?_schemas_iff : c.schemas.get? key = some f ↔ ∃ earlier name later,
    c.finished = earlier ++ (name, f) :: later ∧ TypeName.safeName name = key ∧
      ∀ e ∈ later, TypeName.safeName e.1 ≠ key := by
  have hschemas : c.schemas.get? key = (Dict.ofList c.components).get? key :=
    Dict.get?_sortByName _ key
  rw [hschemas, Dict.get?_ofList_eq_some_iff]
  constructor
  · rintro ⟨before, after, hsplit, hnot⟩
    obtain ⟨earlier, rest, hfinished, rfl, hrest⟩ := List.map_eq_append_iff.1 hsplit
    obtain ⟨⟨name, f'⟩, later, rfl, hentry, rfl⟩ := List.map_eq_cons_iff.1 hrest
    obtain ⟨rfl, rfl⟩ := Prod.mk.inj hentry
    refine ⟨earlier, name, later, hfinished, rfl, fun e he hsame => hnot ?_⟩
    exact hsame ▸ List.mem_map_of_mem (List.mem_map_of_mem he)
  · rintro ⟨earlier, name, later, hfinished, rfl, hlater⟩
    refine ⟨_, _, by rw [components, hfinished, List.map_append, List.map_cons], fun hmem => ?_⟩
    obtain ⟨_, hmem, hsame⟩ := List.mem_map.1 hmem
    obtain ⟨e, he, rfl⟩ := List.mem_map.1 hmem
    exact hlater e he hsame

/-- The components are listed in the order of their names, each name once. -/
theorem pairwise_lt_schemas (c : Compiler) : c.schemas.Pairwise fun e f => e.1 < f.1 :=
  Dict.pairwise_lt_sortByName (Dict.nodup_names_ofList _)

/-- The components have different names if and only if those of different types do. -/
theorem nodup_names_components_iff (h : c.finished.names.Nodup) :
    (Dict.names c.components).Nodup ↔ c.DistinctComponents := by
  rw [names_components, List.nodup_map_iff_inj_on h]
  simp only [DistinctComponents, isFinished, Dict.contains_iff]
  exact ⟨fun h a b ha hb => h a ha b hb, fun h a ha b hb => h a b ha hb⟩

/-- There is a component for each type if and only if no two have components of one name. -/
theorem length_schemas_iff (h : c.finished.names.Nodup) :
    c.schemas.length = c.finished.length ↔ c.DistinctComponents := by
  have hlength : c.schemas.length = (Dict.names c.components).dedup.length := by
    have hperm : c.schemas.Perm (Dict.ofList c.components) := Dict.perm_sortByName _
    rw [hperm.length_eq, Dict.length_ofList]
  have hfinished : c.finished.length = (Dict.names c.components).length := by
    simp [components, Dict.names]
  rw [hlength, hfinished, ← nodup_names_components_iff h]
  constructor
  · exact fun h => List.dedup_eq_self.1 ((List.dedup_sublist _).eq_of_length h)
  · exact fun h => by rw [List.dedup_eq_self.2 h]

/-- A type that shares the name of its component with no other is listed with its own fragment. -/
theorem get?_schemas_of_distinct (h : c.finished.names.Nodup) (hdistinct : c.DistinctComponents)
    (hf : c.finished.get? name = some f) :
    c.schemas.get? (TypeName.safeName name) = some f := by
  have hnodup := (nodup_names_components_iff h).2 hdistinct
  have hschemas : c.schemas.get? (TypeName.safeName name) =
      (Dict.ofList c.components).get? (TypeName.safeName name) := Dict.get?_sortByName _ _
  rw [hschemas, Dict.get?_ofList_of_nodup hnodup, Dict.get?_eq_some_iff hnodup]
  exact List.mem_map.2 ⟨(name, f), Dict.mem_of_get? hf, rfl⟩

/-- The fragment of `name` refers to the components of documented types that its description
mentions. -/
theorem Settled.exists_of_refers (h : Settled registry c) (hname : c.isFinished name)
    (hd : registry.get? name = some d) {target : Json}
    (hr : Fragment.Refers target (fragment (d.rootTree name).node)) :
    ∃ m, d.Mentions m ∧ c.isFinished m ∧
      target = .string (Fragment.componentPrefix ++ TypeName.safeName m) := by
  obtain ⟨target', htarget', rfl⟩ := refersWithin_fragment (d.rootTree name).node
    (fun k hk => List.mem_map_of_mem hk) target hr
  obtain ⟨m, hm, rfl⟩ := List.mem_map.1 htarget'
  have hmentions := TypeDef.mentions_of_mem_references_rootTree hm
  exact ⟨m, hmentions, h.isFinished_of_reaches hname (.single ⟨d, hd, hmentions⟩), rfl⟩

/-- **The components of compiled types**, after any `history` of additions to a new compiler:

* `c.schemas` lists them in the order of their names, each name once;
* under a name stands the fragment of the type that was finished last of those whose component has
  this name;
* there are as many components as documented types if and only if no two of these have components of
  one name (`DistinctComponents`);
* then each documented type has the fragment of its own description, and whatever this refers to is
  the component of a type that the description mentions, which has its own fragment too;
* this is so if no name in the registry has a low line. -/
theorem schemas_of_history (registry : Registry) (history : List String) :
    let c := addAll registry new history
    (c.schemas.Pairwise fun e f => e.1 < f.1) ∧
    (∀ key f, c.schemas.get? key = some f ↔ ∃ earlier name later,
      c.finished = earlier ++ (name, f) :: later ∧ TypeName.safeName name = key ∧
        ∀ e ∈ later, TypeName.safeName e.1 ≠ key) ∧
    (c.schemas.length = c.finished.length ↔ c.DistinctComponents) ∧
    (c.DistinctComponents → ∀ name d, c.isFinished name → registry.get? name = some d →
      c.schemas.get? (TypeName.safeName name) = some (fragment (d.rootTree name).node) ∧
      ∀ target, Fragment.Refers target (fragment (d.rootTree name).node) →
        ∃ m e, d.Mentions m ∧ registry.get? m = some e ∧
          target = .string (Fragment.componentPrefix ++ TypeName.safeName m) ∧
          c.schemas.get? (TypeName.safeName m) = some (fragment (e.rootTree m).node)) ∧
    ((∀ name ∈ registry.names, '_' ∉ name.toList) → c.DistinctComponents) := by
  intro c
  have hs : Settled registry c := (settled_new registry).after_addAll history
  have hown : c.DistinctComponents → ∀ name d, c.isFinished name → registry.get? name = some d →
      c.schemas.get? (TypeName.safeName name) = some (fragment (d.rootTree name).node) :=
    fun hdistinct name d hname hd => get?_schemas_of_distinct hs.nodup hdistinct
      (hs.get?_finished_iff.2 ⟨hname, d, hd, rfl⟩)
  refine ⟨pairwise_lt_schemas c, fun key f => get?_schemas_iff, length_schemas_iff hs.nodup,
    fun hdistinct name d hname hd => ⟨?_, fun target hr => ?_⟩, fun hnames a b ha hb hsame => ?_⟩
  · exact hown hdistinct name d hname hd
  · obtain ⟨m, hmentions, hm, rfl⟩ := hs.exists_of_refers hname hd hr
    obtain ⟨e, he⟩ := Option.isSome_iff_exists.1 (hs.contains_of_isFinished hm)
    exact ⟨m, e, hmentions, he, rfl, hown hdistinct m e hm he⟩
  · have hmem : ∀ k, c.isFinished k → '_' ∉ k.toList := fun k hk =>
      hnames k (Dict.contains_iff.1 (hs.contains_of_isFinished hk))
    exact TypeName.eq_of_safeName_eq (hmem a ha) (hmem b hb) hsame

/-- Persons and companies, which mention one another, after a person has been added. -/
theorem schemas_of_history_people :
    let registry : Registry := [
      ("Api::Person", .struct [⟨"employer", .named "Api::Company", true, none⟩]),
      ("Api::Company", .struct [⟨"staff", .array (.named "Api::Person"), true, none⟩])]
    let c := addAll registry new ["Api::Person"]
    c.schemas.length = 2 ∧ ∃ d, registry.get? "Api::Company" = some d ∧
      c.schemas.get? "Api_Company" = some (fragment (d.rootTree "Api::Company").node) := by
  intro registry c
  obtain ⟨-, -, hlength, hown, hnames⟩ := schemas_of_history registry ["Api::Person"]
  have hdistinct : c.DistinctComponents := hnames (by decide)
  have hrun : run registry (new.enqueue "Api::Person") =
      (.ok (), ⟨[], [("Api::Person", _), ("Api::Company", _)]⟩) :=
    (run_of_turn rfl).trans ((run_of_turn rfl).trans (run_of_idle rfl))
  have hc : c = _ := congrArg Prod.snd (add_of_run hrun)
  have hcompany : c.isFinished "Api::Company" := by
    rw [hc]
    rfl
  have htwo : c.finished.length = 2 := by
    rw [hc]
    rfl
  exact ⟨(hlength.2 hdistinct).trans htwo, _, rfl, (hown hdistinct "Api::Company" _ hcompany rfl).1⟩

/-- Two types that mention one another, of which only the second one is listed: the components of
both would have the same name. What refers to the first one finds the fragment of the second. -/
theorem schemas_of_history_overwritten :
    let registry : Registry := [
      ("A::B", .struct [⟨"b", .named "A_B", true, none⟩]),
      ("A_B", .struct [⟨"a", .named "A::B", true, none⟩])]
    let c := addAll registry new ["A::B"]
    c.finished.names = ["A::B", "A_B"] ∧ c.schemas.names = ["A_B"] ∧
      TypeName.safeName "A::B" = "A_B" ∧ c.schemas.get? "A_B" ≠ c.finished.get? "A::B" := by
  intro registry c
  have hrun : run registry (new.enqueue "A::B") = (.ok (), ⟨[], [("A::B", _), ("A_B", _)]⟩) :=
    (run_of_turn rfl).trans ((run_of_turn rfl).trans (run_of_idle rfl))
  have hc : c = _ := congrArg Prod.snd (add_of_run hrun)
  rw [hc]
  exact ⟨rfl, by decide, by decide, by decide⟩

end Compiler

end JsonShape
