import JsonShape.Proofs.Registry.Documentation
import JsonShape.Proofs.TypeDef.UnionFragments
import JsonShape.Regex.Pattern

/-!
# Documented and enforced requirements

A record is documented and checked from one list of keys. The documentation lists every key of a
required declaration; of the declarations of a key that is declared again, the last is in force when
values are checked (`Member.inForce?`). So the two agree as long as no key is declared again after a
declaration that requires it, and only then (`Registry.documented_required`).
-/

namespace JsonShape

/-! ## Declarations in force -/

namespace Member

variable {α : Type} {ms : List (Member α)} {m n : Member α} {k : String}

/-- The declaration of the key `k` that is in force: the last one. -/
def inForce? (ms : List (Member α)) (k : String) : Option (Member α) :=
  ms.reverse.find? fun m => m.key = k

theorem inForce?_cons (m : Member α) (ms : List (Member α)) (k : String) :
    inForce? (m :: ms) k = (inForce? ms k).or (if m.key = k then some m else none) := by
  rw [inForce?, List.reverse_cons, List.find?_append, List.find?_singleton, inForce?]
  simp

theorem inForce?_append_singleton (ms : List (Member α)) (m : Member α) (k : String) :
    inForce? (ms ++ [m]) k = if m.key = k then some m else inForce? ms k := by
  rw [inForce?, List.reverse_append, List.reverse_singleton, List.singleton_append,
    List.find?_cons, ← inForce?]
  by_cases h : m.key = k <;> simp [h]

theorem key_of_inForce? (h : inForce? ms k = some m) : m.key = k := by
  simpa using List.find?_some h

theorem mem_of_inForce? (h : inForce? ms k = some m) : m ∈ ms :=
  List.mem_reverse.1 (List.mem_of_find?_eq_some h)

theorem inForce?_eq_none_iff : inForce? ms k = none ↔ k ∉ keys ms := by
  simp [inForce?, keys]

theorem mem_declare_iff (h : (keys ms).Nodup) :
    n ∈ declare ms m ↔ n = m ∨ n ∈ ms ∧ n.key ≠ m.key := by
  induction ms with
  | nil => simp [declare]
  | cons l rest ih =>
    obtain ⟨hl, hrest⟩ := List.nodup_cons.1 h
    have hother : ∀ n ∈ rest, n.key ≠ l.key := fun n hn heq =>
      hl (heq ▸ List.mem_map_of_mem hn)
    rw [declare]
    split
    · next hkey =>
      rw [List.mem_cons, List.mem_cons]
      constructor
      · rintro (rfl | hn)
        · exact Or.inl rfl
        · exact Or.inr ⟨Or.inr hn, hkey ▸ hother n hn⟩
      · rintro (rfl | ⟨rfl | hn, hne⟩)
        · exact Or.inl rfl
        · exact absurd hkey hne
        · exact Or.inr hn
    · next hkey =>
      rw [List.mem_cons, List.mem_cons, ih hrest]
      constructor
      · rintro (rfl | rfl | ⟨hn, hne⟩)
        · exact Or.inr ⟨Or.inl rfl, hkey⟩
        · exact Or.inl rfl
        · exact Or.inr ⟨Or.inr hn, hne⟩
      · rintro (rfl | ⟨rfl | hn, hne⟩)
        · exact Or.inr (Or.inl rfl)
        · exact Or.inl rfl
        · exact Or.inr (Or.inr ⟨hn, hne⟩)

/-- The declarations that are left when keys are redeclared are those in force. -/
theorem mem_distinct_iff : m ∈ distinct ms ↔ inForce? ms m.key = some m := by
  induction ms using List.reverseRecOn with
  | nil => simp [distinct, inForce?]
  | append_singleton rest n ih =>
    have hlast : distinct (rest ++ [n]) = declare (distinct rest) n := by
      rw [distinct, List.foldl_append, List.foldl_cons, List.foldl_nil, distinct]
    rw [hlast, mem_declare_iff (nodup_keys_distinct rest), ih, inForce?_append_singleton]
    by_cases hkey : n.key = m.key
    · simp [hkey, eq_comm]
    · have hne : m ≠ n := fun heq => hkey (heq ▸ rfl)
      simp [hkey, Ne.symm hkey, hne]

/-- The key `k` is required where the declaration in force requires it. -/
def Enforced (ms : List (Member α)) (k : String) : Prop :=
  ∃ m, inForce? ms k = some m ∧ m.required

theorem Enforced.mem (h : Enforced ms k) : k ∈ keys (ms.filter required) := by
  obtain ⟨m, hm, hrequired⟩ := h
  exact List.mem_map.2 ⟨m, List.mem_filter.2 ⟨mem_of_inForce? hm, hrequired⟩, key_of_inForce? hm⟩

/-- A declaration in front of others of its key changes nothing. -/
theorem enforced_cons (h : k ∈ keys ms) : Enforced (m :: ms) k ↔ Enforced ms k := by
  obtain ⟨n, hn⟩ := Option.ne_none_iff_exists'.1 fun hnone => inForce?_eq_none_iff.1 hnone h
  rw [Enforced, Enforced, inForce?_cons, hn, Option.some_or]

theorem enforced_cons_of_notMem (h : m.key ∉ keys ms) : Enforced (m :: ms) m.key ↔ m.required := by
  rw [Enforced, inForce?_cons, inForce?_eq_none_iff.2 h, if_pos rfl]
  simp

/-- Each key of a required declaration stands once, and is required by the declaration in force, if
and only if no key is declared again after a declaration that requires it. -/
theorem required_enforced_iff :
    ((keys (ms.filter required)).Nodup ∧ ∀ k, k ∈ keys (ms.filter required) ↔ Enforced ms k) ↔
      ms.Pairwise fun m n => m.required → m.key ≠ n.key := by
  have hsub : ∀ {ms : List (Member α)} {k}, k ∈ keys (ms.filter required) → k ∈ keys ms :=
    fun hk => List.map_subset key (List.filter_subset_self _) hk
  have hiff : ∀ ms : List (Member α), (∀ k, k ∈ keys (ms.filter required) ↔ Enforced ms k) ↔
      ∀ k ∈ keys (ms.filter required), Enforced ms k := fun ms =>
    forall_congr' fun k => iff_iff_implies_and_implies.trans (and_iff_left Enforced.mem)
  rw [hiff]
  induction ms with
  | nil => simp [keys]
  | cons m rest ih =>
    have hrest : (∀ k ∈ keys (rest.filter required), Enforced (m :: rest) k) ↔
        ∀ k ∈ keys (rest.filter required), Enforced rest k :=
      forall₂_congr fun k hk => enforced_cons (hsub hk)
    rw [List.pairwise_cons, ih.symm]
    cases hm : m.required with
    | false => simp [hm, hrest]
    | true =>
      have hkeys : keys ((m :: rest).filter required) = m.key :: keys (rest.filter required) := by
        rw [List.filter_cons, if_pos hm]
        rfl
      have hnew : (∀ n ∈ rest, m.key ≠ n.key) ↔ m.key ∉ keys rest := by
        simp [keys, eq_comm]
      rw [hkeys, List.nodup_cons, List.forall_mem_cons, hrest]
      simp only [true_implies, hnew]
      constructor
      · rintro ⟨⟨hnot, hnodup⟩, hforce, hall⟩
        refine ⟨fun hmem => hnot ?_, hnodup, hall⟩
        exact ((enforced_cons hmem).1 hforce).mem
      · rintro ⟨hnot, hnodup, hall⟩
        exact ⟨⟨fun hmem => hnot (hsub hmem), hnodup⟩, (enforced_cons_of_notMem hnot).2 hm, hall⟩

end Member

/-! ## Reported requirements -/

namespace Checked

/-- Of members that are all absent, the required ones are reported. -/
theorem memberFailures_absent {α : Type} (ms : List (Member α)) :
    memberFailures (ms.map fun m => (m.key, absent m.required)) =
      (ms.filter Member.required).map fun m => (m.key, Report.required) := by
  induction ms with
  | nil => rfl
  | cons m rest ih =>
    rw [List.map_cons, List.filter_cons, absent]
    split
    · rw [memberFailures, ih, List.map_cons]
    · rw [memberFailures, ih]

end Checked

namespace Input

variable [Regex.Engine] {defs : Dict Input} {members : List (Member Input)} {name k : String}

/-- Of the empty object, the input `i` reports the member `k` as required. -/
def Requires (defs : Dict Input) (i : Input) (k : String) : Prop :=
  ∃ reports, i.call defs (.object []) = some (.error (.object reports)) ∧
    (k, Report.required) ∈ reports

/-- A record, called on the empty object, is told of each member that it is absent. -/
theorem callWith_empty_object (deferred : String → Json → Outcome) (members : List (Member Input)) :
    callWith deferred (.object members) (.object []) = some (Checked.ofMembers
      ((Member.distinct members).map fun m => (m.key, Checked.absent m.required))) := by
  have hresults : (Member.distinct members).mapM (fun m =>
      (callMember deferred [] m).map fun r => (m.key, r)) =
        some ((Member.distinct members).map fun m => (m.key, Checked.absent m.required)) :=
    mapM_eq_some_iff.2 (List.forall₂_map_right_iff.2 (List.forall₂_same.2 fun _ _ => rfl))
  rw [callWith_object, hresults]
  rfl

theorem call_empty_object (defs : Dict Input) (members : List (Member Input)) (name : String) :
    (referenced (.object members) name).call defs (.object []) = some (Checked.ofMembers
      ((Member.distinct members).map fun m => (m.key, Checked.absent m.required))) := by
  rw [call_eq]
  exact callWith_empty_object _ members

theorem requires_iff : Requires defs (.referenced (.object members) name) k ↔
    ∃ m ∈ Member.distinct members, m.required ∧ m.key = k := by
  rw [Requires, call_empty_object]
  simp only [Option.some.injEq, Checked.ofMembers_eq_error, Report.object.injEq,
    Checked.memberFailures_absent]
  constructor
  · rintro ⟨_, ⟨-, rfl⟩, hk⟩
    obtain ⟨m, hm, heq⟩ := List.mem_map.1 hk
    obtain ⟨hmem, hrequired⟩ := List.mem_filter.1 hm
    exact ⟨m, hmem, hrequired, (Prod.mk.inj heq).1⟩
  · rintro ⟨m, hm, hrequired, rfl⟩
    have hk : (m.key, Report.required) ∈ ((Member.distinct members).filter Member.required).map
        fun m => (m.key, Report.required) :=
      List.mem_map.2 ⟨m, List.mem_filter.2 ⟨hm, hrequired⟩, rfl⟩
    exact ⟨_, ⟨List.ne_nil_of_mem hk, rfl⟩, hk⟩

end Input

/-! ## Documented requirements -/

/-- The members that a fragment lists as required, none if it has no such list. -/
def Fragment.requiredNames (f : Json) : List String :=
  (((f.get? "required").bind Json.items?).getD []).filterMap Json.string?

theorem Fragment.requiredNames_object (properties : Dict Json) (required : List String) :
    requiredNames (object properties required) = required := by
  cases required with
  | nil => rfl
  | cons k rest =>
    have hget : (object properties (k :: rest)).get? "required" =
        some (.array ((k :: rest).map .string)) := rfl
    rw [requiredNames, hget]
    change ((k :: rest).map Json.string).filterMap Json.string? = k :: rest
    rw [List.filterMap_map]
    exact List.filterMap_some

namespace Registry

open Compiler (fragment add addAll new)

variable {registry : Registry} {name : String} {keys : List (Member TypeDef)}

theorem requiredNames_struct (keys : List (Member TypeDef)) :
    Fragment.requiredNames (fragment (TypeDef.struct keys).tree.node) =
      Member.keys (keys.filter Member.required) := by
  rw [TypeDef.node_tree_struct, Node.fragment_object, Fragment.requiredNames_object,
    List.filter_map, List.map_map]
  rfl

variable [Regex.Engine] {inputs : Dict Input}

/-- The input of a record enforces the requirements of the declarations in force. -/
theorem requires_struct_iff {i : Input} (h : (TypeDef.struct keys).input registry = .ok i)
    {k : String} : Input.Requires inputs (.referenced i (TypeName.dottedName name)) k ↔
      Member.Enforced keys k := by
  obtain ⟨members, hmembers, rfl⟩ := TypeDef.input_struct h
  have hkey : ∀ (key : Member TypeDef) (m : Member Input),
      (key.value.input registry = .ok m.value ∧ m.key = key.key ∧ m.required = key.required) →
        key.key = m.key := fun _ _ hm => hm.2.1.symm
  have hdistinct := Member.distinct_forall₂ hkey (TypeDef.forall₂_of_keyInputs hmembers)
  rw [Input.requires_iff, Member.Enforced]
  constructor
  · rintro ⟨m, hm, hrequired, rfl⟩
    obtain ⟨key, hmem, -, hname, hsame⟩ := exists_of_forall₂_of_mem hdistinct.flip hm
    exact ⟨key, hname ▸ Member.mem_distinct_iff.1 hmem, hsame ▸ hrequired⟩
  · rintro ⟨key, hget, hrequired⟩
    obtain rfl := Member.key_of_inForce? hget
    obtain ⟨m, hm, -, hname, hsame⟩ :=
      exists_of_forall₂_of_mem hdistinct (Member.mem_distinct_iff.2 hget)
    exact ⟨m, hm, hsame ▸ hrequired, hname⟩

/-- **Documented and enforced requirements of a record** `name` in a registry that has inputs:

* whenever the record has been added to a compiler, it has the same fragment `f`, whose `required`
  lists the key of each declaration that requires it, as often as there are such declarations;
* its input `i`, called on the empty object, reports the keys that their last declaration requires
  (`Requires`);
* so the two agree and no key is listed twice, if and only if no key is declared again after a
  declaration that requires it. Then the last declarations are the ones that count for both. -/
theorem documented_required (hinputs : registry.inputs = .ok inputs)
    (hget : registry.get? name = some (.struct keys)) :
    ∃ f i, (∀ history, name ∈ history →
        (addAll registry new history).finished.get? name = some f) ∧
      inputs.get? name = some i ∧
      Fragment.requiredNames f = Member.keys (keys.filter Member.required) ∧
      (∀ k, i.Requires inputs k ↔ ∃ m, Member.inForce? keys k = some m ∧ m.required) ∧
      (((Fragment.requiredNames f).Nodup ∧
          ∀ k, k ∈ Fragment.requiredNames f ↔ i.Requires inputs k) ↔
        keys.Pairwise fun m n => m.required → m.key ≠ n.key) := by
  obtain ⟨i, hi, hentry⟩ := exists_input hinputs hget
  have hcontains : registry.contains name := by simp [Dict.contains, hget]
  have hreaches : ∀ m, registry.Reaches name m → registry.contains m := fun m hm =>
    contains_of_reaches hinputs hcontains hm
  have hfragment : fragment ((TypeDef.struct keys).rootTree name).node =
      fragment (TypeDef.struct keys).tree.node :=
    congrArg fragment (TypeDef.node_rootTree (by simp))
  refine ⟨fragment (TypeDef.struct keys).tree.node, _, fun history hname => ?_, hentry,
    requiredNames_struct keys, fun k => requires_struct_iff hi, ?_⟩
  · exact Compiler.get?_finished_addAll.2
      ⟨Compiler.added_iff.2 ⟨name, hname, hreaches, .refl⟩, _, hget, hfragment.symm⟩
  · simp only [requiredNames_struct, requires_struct_iff hi]
    exact Member.required_enforced_iff

end Registry

namespace Registry

open Compiler (fragment add addAll new)

attribute [local instance] Regex.Engine.standard

/-- A page whose code is declared again with another type, before anything requires it. -/
theorem documented_required_page :
    let keys : List (Member TypeDef) := [⟨"code", .scalar .integer, false, none⟩,
      ⟨"next", .named "Page", false, none⟩, ⟨"code", .scalar .string, true, none⟩]
    ∃ inputs f i, Registry.inputs [("Page", .struct keys)] = .ok inputs ∧
      (addAll [("Page", .struct keys)] new ["Page"]).finished.get? "Page" = some f ∧
      inputs.get? "Page" = some i ∧ Fragment.requiredNames f = ["code"] ∧
      ∀ k, k ∈ Fragment.requiredNames f ↔ i.Requires inputs k := by
  intro keys
  have hget : Dict.get? [("Page", TypeDef.struct keys)] "Page" = some (.struct keys) := rfl
  obtain ⟨f, i, hfinished, hi, hnames, -, hagree⟩ := documented_required rfl hget
  have hpairwise : keys.Pairwise fun m n => m.required → m.key ≠ n.key := by
    simp [keys]
  exact ⟨_, f, i, rfl, hfinished ["Page"] (.head _), hi, hnames, (hagree.2 hpairwise).2⟩

/-- Text that is required by a declaration which is not in force: it is documented as required, and
an object without it is accepted. -/
theorem documented_required_redeclared :
    let registry : Registry := [("Note", .struct [⟨"text", .scalar .string, true, none⟩,
      ⟨"text", .scalar .string, false, none⟩])]
    ∃ inputs c f i, registry.inputs = .ok inputs ∧ add registry new "Note" = (.ok (), c) ∧
      c.finished.get? "Note" = some f ∧ inputs.get? "Note" = some i ∧
      Fragment.requiredNames f = ["text"] ∧
      Input.call inputs i (.object []) = some (.ok (.object [])) ∧ ¬i.Requires inputs "text" := by
  intro registry
  have hrun : Compiler.run registry (new.enqueue "Note") = (.ok (), ⟨[], [("Note", _)]⟩) :=
    (Compiler.run_of_turn rfl).trans (Compiler.run_of_idle rfl)
  have hcall : ∀ inputs, Input.call inputs (.referenced (.object [⟨"text", .text none, true, none⟩,
      ⟨"text", .text none, false, none⟩]) "Note") (.object []) = some (.ok (.object [])) :=
    fun inputs => Input.call_empty_object inputs _ _
  refine ⟨_, _, _, _, rfl, Compiler.add_of_run hrun, rfl, rfl, by decide, hcall _, ?_⟩
  rintro ⟨reports, hreports, -⟩
  cases (hcall _).symm.trans hreports

end Registry

end JsonShape
