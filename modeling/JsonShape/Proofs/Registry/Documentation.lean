import JsonShape.Proofs.Registry.Meaning
import JsonShape.Proofs.Registry.SelfContained
import JsonShape.Proofs.Schema.SelfContained
import JsonShape.Proofs.TypeDef.Documentation
import JsonShape.Regex.Pattern

/-!
# Two documents of a registry

The types of a registry are documented in two documents. One is compiled from their trees, and the
types wait on a stack; the other is collected from the documentation of their inputs, where a type
is found under the reference to it. Both list the types that are reachable from the root, under
names of their own, and for plain descriptions the fragments differ in nothing else.

* `Registry.reaches_of_found` and `Registry.found_of_reaches`: what is found from an entry on is
  what is reachable from the type.
* `Registry.components_entry`: the collected document.
* `Compiler.documents_agree`: the two documents list the same types, with fragments that are alike.
-/

namespace JsonShape

namespace Registry

open JsonShape.TypeName (safeName dottedName)

variable [Regex.Engine] {registry : Registry} {inputs : Dict Input} {root name : String}
  {entry p : Input}

/-- The types of the registry have different names with points: `dottedName` tells them apart. -/
def DistinctDotted (registry : Registry) : Prop := ∀ a ∈ registry.names, ∀ b ∈ registry.names,
  dottedName a = dottedName b → a = b

/-! ## Inputs by name -/

/-- The input of the named type is `p`, under the type's name with points. -/
def Produces (inputs : Dict Input) (name : String) (p : Input) : Prop :=
  inputs.get? name = some (.referenced p (dottedName name))

theorem Produces.eq {q : Input} (hp : Produces inputs name p) (hq : Produces inputs name q) :
    p = q := by
  have h := hp.symm.trans hq
  simpa using h

/-- A type of the registry has an input, which is that of its description. -/
theorem exists_produces (h : registry.inputs = .ok inputs) (hname : registry.contains name) :
    ∃ d p, registry.get? name = some d ∧ d.input registry = .ok p ∧ Produces inputs name p := by
  rcases get?_inputs h name with ⟨hnone, -⟩ | hd
  · simp [Dict.contains, hnone] at hname
  · exact hd

theorem Produces.exists_description (h : registry.inputs = .ok inputs)
    (hp : Produces inputs name p) :
    ∃ d, registry.get? name = some d ∧ d.input registry = .ok p := by
  rcases get?_inputs h name with ⟨-, hnone⟩ | ⟨d, q, hd, hq, hget⟩
  · cases hnone.symm.trans hp
  · exact ⟨d, hd, hp.eq hget ▸ hq⟩

theorem Produces.mem_names (h : registry.inputs = .ok inputs) (hp : Produces inputs name p) :
    name ∈ registry.names := by
  obtain ⟨d, hd, -⟩ := hp.exists_description h
  exact Dict.contains_iff.1 (by rw [Dict.contains, hd]; rfl)

/-- The definition of a type is documented by the reference to it. -/
theorem Produces.docLookup (hp : Produces inputs name p) :
    Input.docLookup inputs inputs.length name = Doc.reference (dottedName name) p := by
  obtain ⟨n, hn⟩ : ∃ n, inputs.length = n + 1 :=
    Nat.exists_eq_add_one.2 (List.length_pos_of_mem (Dict.mem_of_get? hp))
  rw [hn, Input.docLookup_succ, hp]
  exact Input.docAt_eq n _

/-! ## What is found -/

/-- What the documentation of a type mentions is a type that its description names. -/
theorem Produces.of_found (h : registry.inputs = .ok inputs) (hp : Produces inputs name p)
    {e : String × Input} (he : e ∈ (Input.doc inputs p).found) :
    ∃ next, registry.Mentions name next ∧ e.1 = dottedName next ∧ Produces inputs next e.2 := by
  obtain ⟨d, hd, hinput⟩ := hp.exists_description h
  rw [Input.doc, Input.docAt_eq] at he
  obtain ⟨next, hnext, he⟩ := TypeDef.exists_mention_of_found hinput he
  obtain ⟨-, q, -, -, hq⟩ := exists_produces h (contains_of_mentions hinput hnext)
  rw [hq.docLookup] at he
  obtain rfl := List.mem_singleton.1 he
  exact ⟨next, ⟨d, hd, hnext⟩, rfl, hq⟩

/-- Every type that a description names is mentioned. -/
theorem Produces.exists_found (h : registry.inputs = .ok inputs) (hkeys : registry.DistinctKeys)
    (hp : Produces inputs name p) {next : String} (hnext : registry.Mentions name next) :
    ∃ q, (dottedName next, q) ∈ (Input.doc inputs p).found := by
  obtain ⟨d, hd, hinput⟩ := hp.exists_description h
  obtain ⟨d', hd', hmentions⟩ := hnext
  obtain rfl : d' = d := Option.some.inj (hd'.symm.trans hd)
  obtain ⟨-, q, -, -, hq⟩ := exists_produces h (contains_of_mentions hinput hmentions)
  have hmem : dottedName next ∈ (Input.docLookup inputs inputs.length next).found.names := by
    rw [hq.docLookup]
    exact .head _
  have hfound := TypeDef.mem_names_found hinput (hkeys.of_get? hd) hmentions hmem
  rw [← Input.docAt_eq] at hfound
  obtain ⟨⟨_, q'⟩, hq', rfl⟩ := List.mem_map.1 hfound
  exact ⟨q', hq'⟩

/-- The names under which components are found from an entry on. -/
abbrev Found (inputs : Dict Input) (entry : Input) : String → Input → Prop :=
  Components.Reachable (Input.doc inputs) [Input.doc inputs entry]

/-- What is found is reachable, and it is the input of a type. -/
theorem reaches_of_found (h : registry.inputs = .ok inputs) (hroot : Produces inputs root p)
    {k : String} {q : Input} (hq : Found inputs (.referenced p (dottedName root)) k q) :
    ∃ name, registry.Reaches root name ∧ k = dottedName name ∧ Produces inputs name q := by
  induction hq with
  | root hd he =>
    obtain rfl := List.mem_singleton.1 hd
    rw [Input.doc, Input.docAt_eq] at he
    obtain ⟨rfl, rfl⟩ := Prod.mk.inj (List.mem_singleton.1 he)
    exact ⟨root, .refl, rfl, hroot⟩
  | found _ he ih =>
    obtain ⟨name, hname, -, hp⟩ := ih
    obtain ⟨next, hnext, hk, hq⟩ := hp.of_found h he
    exact ⟨next, hname.tail hnext, hk, hq⟩

/-- **What is found from an entry on is what is reachable from the type**, each type with the input
that it `Produces`. -/
theorem found_of_reaches (h : registry.inputs = .ok inputs) (hkeys : registry.DistinctKeys)
    (hdotted : registry.DistinctDotted) (hroot : Produces inputs root p)
    (hname : registry.Reaches root name) :
    ∃ q, Produces inputs name q ∧
      Found inputs (.referenced p (dottedName root)) (dottedName name) q := by
  induction hname with
  | refl =>
    refine ⟨p, hroot, .root (.head _) ?_⟩
    rw [Input.doc, Input.docAt_eq]
    exact .head _
  | @tail name next _ hnext ih =>
    obtain ⟨q, hq, hfound⟩ := ih
    obtain ⟨q', hq'⟩ := hq.exists_found h hkeys hnext
    have hfound' := hfound.found hq'
    -- no other type has the name with points
    obtain ⟨next', -, hdot, hnext'⟩ := reaches_of_found h hroot hfound'
    obtain ⟨d, hd, hmentions⟩ := hnext
    obtain ⟨d', hd', hinput⟩ := hq.exists_description h
    obtain rfl : d' = d := Option.some.inj (hd'.symm.trans hd)
    have hmem : next ∈ registry.names := Dict.contains_iff.1 (contains_of_mentions hinput hmentions)
    obtain rfl : next = next' := hdotted next hmem next' (hnext'.mem_names h) hdot
    exact ⟨q', hnext', hfound'⟩

/-! ## The collected document -/

theorem mentioned_of_found {k : String} {q : Input} (hq : Found inputs entry k q) :
    Input.Mentioned inputs entry k q := by
  induction hq with
  | root hd he =>
    obtain rfl := List.mem_singleton.1 hd
    exact Input.mentioned_of_found_root _ he
  | found _ he ih => exact ih.of_found _ he

/-- A name is found with one definition, since it is that of one type. -/
theorem oneDefinition_entry (h : registry.inputs = .ok inputs)
    (hdotted : registry.DistinctDotted) (hroot : Produces inputs root p) :
    Components.OneDefinition (Input.doc inputs)
      [Input.doc inputs (.referenced p (dottedName root))] := by
  intro k a b ha hb
  obtain ⟨n, -, rfl, hn⟩ := reaches_of_found h hroot ha
  obtain ⟨m, -, hnm, hm⟩ := reaches_of_found h hroot hb
  obtain rfl := hdotted n (hn.mem_names h) m (hm.mem_names h) hnm
  rw [hn.eq hm]
  exact ⟨rfl, rfl⟩

/-- **The components of an entry** are the types that are reachable from `root`, each documented by
its input. -/
theorem components_entry (h : registry.inputs = .ok inputs) (hkeys : registry.DistinctKeys)
    (hdotted : registry.DistinctDotted) (hentry : inputs.get? root = some entry) :
    (∀ name ∈ registry.names, dottedName name ∈
      (Input.components inputs [Input.doc inputs entry]).names ↔ registry.Reaches root name) ∧
    ∀ name, registry.Reaches root name → ∃ q, Produces inputs name q ∧
      (Input.components inputs [Input.doc inputs entry]).get? (dottedName name) =
        some (Input.doc inputs q).fragment := by
  obtain ⟨p, hroot, rfl⟩ :
      ∃ p, Produces inputs root p ∧ entry = .referenced p (dottedName root) := by
    rcases get?_inputs h root with ⟨-, hnone⟩ | ⟨-, p, -, -, hp⟩
    · cases hnone.symm.trans hentry
    · exact ⟨p, hp, Option.some.inj (hentry.symm.trans hp)⟩
  obtain ⟨cs, hcs, -, hnames, hget⟩ := Components.collect_reachable
    (oneDefinition_entry h hdotted hroot) (fun k q hq => (mentioned_of_found hq).mem)
    (Input.length_mentionable_le _)
  have hcomponents : Input.components inputs
      [Input.doc inputs (.referenced p (dottedName root))] = cs :=
    congrArg (fun o => o.getD []) hcs
  rw [hcomponents]
  refine ⟨fun name hname => ?_, fun name hname => ?_⟩
  · rw [hnames]
    constructor
    · rintro ⟨q, hq⟩
      obtain ⟨n, hn, hnm, hn'⟩ := reaches_of_found h hroot hq
      rwa [hdotted name hname n (hn'.mem_names h) hnm]
    · intro hr
      obtain ⟨q, -, hq⟩ := found_of_reaches h hkeys hdotted hroot hr
      exact ⟨q, hq⟩
  · obtain ⟨q, hq, hfound⟩ := found_of_reaches h hkeys hdotted hroot hname
    exact ⟨q, hq, hget _ q hfound⟩

end Registry

namespace Compiler

open JsonShape.TypeName (safeName dottedName)

variable [Regex.Engine] {registry : Registry} {inputs : Dict Input} {c : Compiler}
  {root name : String}

/-! ## The compiled document -/

omit [Regex.Engine] in
/-- The components of the compiled document are the documented types, by their names. -/
theorem Settled.safeName_mem_schemas_iff (h : Settled registry c)
    (hsafe : registry.DistinctComponents) (hname : name ∈ registry.names) :
    safeName name ∈ c.schemas.names ↔ c.isFinished name := by
  refine ⟨fun hmem => ?_, safeName_mem_schemas⟩
  rw [schemas, Dict.mem_names_sortByName, Dict.mem_names_ofList] at hmem
  obtain ⟨_, he, heq⟩ := List.mem_map.1 hmem
  obtain ⟨⟨k, f⟩, hk, rfl⟩ := List.mem_map.1 he
  have hfinished : c.isFinished k := Dict.contains_iff.2 (List.mem_map_of_mem hk)
  have hkmem : k ∈ registry.names := Dict.contains_iff.1 (h.contains_of_isFinished hfinished)
  obtain rfl : k = name := hsafe k hkmem name hname heq
  exact hfinished

/-- A new compiler documents what is reachable from the type that is added. -/
theorem exists_add_new (h : registry.inputs = .ok inputs) (hroot : registry.contains root) :
    ∃ c, add registry new root = (.ok (), c) ∧ Settled registry c ∧
      ∀ k, c.isFinished k ↔ registry.Reaches root k := by
  rcases (settled_new registry).add_cases root with ⟨c, hadd, hs, hfin⟩ | ⟨e, m, -, hm, hnone⟩
  · refine ⟨c, hadd, hs, fun k => ?_⟩
    rw [hfin, or_iff_right]
    simp [new, isFinished, Dict.contains]
  · have hcontains := Registry.contains_of_reaches h hroot hm
    simp [Dict.contains, hnone] at hcontains

/-! ## Both documents -/

/-- A plain type has fragments that are alike, for its tree and for its input. -/
theorem alike_entry {d : TypeDef} {q : Input} (h : registry.inputs = .ok inputs)
    (hkeys : registry.DistinctKeys) (hd : registry.get? name = some d)
    (hq : Registry.Produces inputs name q) (hself : d ≠ .named name) (hplain : d.Plain) :
    Fragment.Alike safeName dottedName (fragment (d.rootTree name).node)
      (Input.doc inputs q).fragment := by
  obtain ⟨d', hd', hinput⟩ := hq.exists_description h
  obtain rfl : d' = d := Option.some.inj (hd'.symm.trans hd)
  rw [TypeDef.node_rootTree hself, Input.doc, Input.docAt_eq]
  refine TypeDef.alike_fragment hplain (hkeys.of_get? hd) hinput fun n hn => ?_
  obtain ⟨-, p, -, -, hp⟩ := Registry.exists_produces h (Registry.contains_of_mentions hinput hn)
  rw [hp.docLookup]
  rfl

/-- **The two documents of a registry agree.** For a registry with an input for every type, with
distinct keys in every record and distinct names of components in both documents, and for an entry
`root`:

* the compiled document, `c.schemas`, and the collected one, `Input.components`, list the same
  types;
* for every type that they list, that is not described as itself, and whose description has no
  union, enumeration, null or rule in it (`TypeDef.Plain`), the two fragments are the same but for
  the names of the components that they refer to (`Fragment.Renamed`). -/
theorem documents_agree (registry : Registry) (inputs : Dict Input)
    (h : registry.inputs = .ok inputs) (hkeys : registry.DistinctKeys)
    (hsafe : registry.DistinctComponents) (hdotted : registry.DistinctDotted) (root : String)
    (entry : Input) (hentry : inputs.get? root = some entry) :
    ∃ c, add registry new root = (.ok (), c) ∧
      (∀ name ∈ registry.names, safeName name ∈ c.schemas.names ↔
        dottedName name ∈ (Input.components inputs [Input.doc inputs entry]).names) ∧
      ∀ name d, registry.get? name = some d → safeName name ∈ c.schemas.names →
        d ≠ .named name → d.Plain → ∃ compiled collected,
          c.schemas.get? (safeName name) = some compiled ∧
          (Input.components inputs [Input.doc inputs entry]).get? (dottedName name) =
            some collected ∧
          Fragment.Renamed safeName dottedName compiled collected := by
  obtain ⟨hcollected, hfragments⟩ := Registry.components_entry h hkeys hdotted hentry
  have hroot : registry.contains root := by
    rcases Registry.get?_inputs h root with ⟨-, hnone⟩ | ⟨d, -, hd, -⟩
    · cases hnone.symm.trans hentry
    · simp [Dict.contains, hd]
  obtain ⟨c, hadd, hs, hreaches⟩ := exists_add_new h hroot
  have hcompiled : ∀ name ∈ registry.names, safeName name ∈ c.schemas.names ↔
      registry.Reaches root name := fun name hname =>
    (hs.safeName_mem_schemas_iff hsafe hname).trans (hreaches name)
  refine ⟨c, hadd, fun name hname => ?_, fun name d hd hmem hself hplain => ?_⟩
  · rw [hcompiled name hname, hcollected name hname]
  · have hname : name ∈ registry.names := Dict.contains_iff.1 (by simp [Dict.contains, hd])
    have hr := (hcompiled name hname).1 hmem
    have hfinished : c.finished.get? name = some (fragment (d.rootTree name).node) :=
      hs.get?_finished_iff.2 ⟨(hreaches name).2 hr, d, hd, rfl⟩
    obtain ⟨q, hq, hget⟩ := hfragments name hr
    exact ⟨_, _, hs.get?_schemas hsafe hfinished, hget,
      (alike_entry h hkeys hd hq hself hplain).renamed⟩

end Compiler

namespace Compiler

open JsonShape.TypeName (safeName dottedName)

attribute [local instance] Regex.Engine.standard

/-- People and their friends: both documents list one type, with a fragment of the same form. -/
theorem documents_agree_people :
    let person : TypeDef := .struct [
      ⟨"name", .scalar .string, true, none⟩,
      ⟨"friends", .array (.named "Api::Person"), false, some "people, too"⟩]
    let registry : Registry := [("Api::Person", person)]
    let entry : Input := .referenced (.object [
      ⟨"name", .text none, true, none⟩,
      ⟨"friends", .list (.defer "Api::Person"), false, some "people, too"⟩]) "Api.Person"
    ∃ c compiled collected, add registry new "Api::Person" = (.ok (), c) ∧
      c.schemas.get? "Api_Person" = some compiled ∧
      (Input.components [("Api::Person", entry)]
        [Input.doc [("Api::Person", entry)] entry]).get? "Api.Person" = some collected ∧
      Fragment.Renamed safeName dottedName compiled collected := by
  intro person registry entry
  have hkeys : registry.DistinctKeys := by
    intro e he ks hks
    obtain rfl := List.mem_singleton.1 he
    simp only [TypeDef.parts, TypeDef.keyParts, person] at hks
    rcases List.mem_cons.1 hks with hks | hks
    · obtain rfl := TypeDef.struct.inj hks
      decide
    · simp at hks
  -- there is one name only
  have hone : ∀ a ∈ registry.names, ∀ b ∈ registry.names, a = b := fun a ha b hb =>
    (List.mem_singleton.1 ha).trans (List.mem_singleton.1 hb).symm
  have hsafe : registry.DistinctComponents := fun a ha b hb _ => hone a ha b hb
  have hdotted : registry.DistinctDotted := fun a ha b hb _ => hone a ha b hb
  have hplain : person.Plain := by
    constructor <;> simp [person, TypeDef.parts, TypeDef.keyParts, TypeDef.Unconstrained]
  have hinputs : registry.inputs = .ok [("Api::Person", entry)] := by
    simp only [registry, person]
    rfl
  have hmem : "Api::Person" ∈ registry.names := .head _
  obtain ⟨c, hadd, hnames, hfragments⟩ := documents_agree registry [("Api::Person", entry)] hinputs
    hkeys hsafe hdotted "Api::Person" entry rfl
  have hcollected := ((Registry.components_entry hinputs hkeys hdotted rfl).1 "Api::Person" hmem).2
    .refl
  obtain ⟨compiled, collected, hcompiled, hcollected, h⟩ := hfragments "Api::Person" _ rfl
    ((hnames _ hmem).2 hcollected) (by simp) hplain
  exact ⟨c, compiled, collected, hadd, hcompiled, hcollected, h⟩

end Compiler

end JsonShape
