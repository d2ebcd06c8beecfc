import JsonShape.Proofs.TypeDef.Meaning
import Mathlib.Data.Fintype.Card
import Mathlib.Data.Fintype.EquivFin
import Mathlib.Data.Fintype.Sets

/-!
# Guarded registries

A type leads to those that it names outside of records and arrays: checking a value against it may
check the same value against them. If none of the types below a root leads back to itself, every
check ends.

* `Registry.Guarded` says so of a root.
* `Guarded.wellFounded`: leading on cannot go on for ever, as the registry is finite.
* `Guarded.answers`: every value has an answer, by induction on its depth and, on one value, on the
  types that lead on.
-/

namespace JsonShape

namespace Dict

variable {α β : Type} {R : String → α → β → Prop}

/-- Lookups in two tables with the same names find related entries, or none in both. -/
theorem get?_of_forall₂ {d : Dict α} {d' : Dict β}
    (h : List.Forall₂ (fun e f => f.1 = e.1 ∧ R e.1 e.2 f.2) d d') (name : String) :
    (d.get? name = none ∧ d'.get? name = none) ∨
      ∃ a b, d.get? name = some a ∧ d'.get? name = some b ∧ R name a b := by
  induction h with
  | nil => exact Or.inl ⟨rfl, rfl⟩
  | @cons e f _ _ hef _ ih =>
    obtain ⟨k, a⟩ := e
    obtain ⟨k', b⟩ := f
    obtain ⟨rfl, hR⟩ := hef
    rw [get?, get?]
    split
    · next h => exact Or.inr ⟨a, b, rfl, rfl, h ▸ hR⟩
    · exact ih

end Dict

namespace Registry

variable [Regex.Engine] {registry : Registry} {inputs : Dict Input} {root name : String}

/-! ## Inputs of a registry -/

/-- The input of a named type with a description. -/
def Describes (registry : Registry) (name : String) (d : TypeDef) (entry : Input) : Prop :=
  ∃ i, d.input registry = .ok i ∧ entry = .referenced i (TypeName.dottedName name)

theorem forall₂_of_inputs (h : registry.inputs = .ok inputs) :
    List.Forall₂ (fun e f => f.1 = e.1 ∧ registry.Describes e.1 e.2 f.2) registry inputs := by
  suffices ∀ entries : Registry, ∀ {inputs : Dict Input},
      (entries.mapM fun e => do
        let i ← entryInput registry e.1 e.2
        Except.ok (e.1, i)) = .ok inputs →
      List.Forall₂ (fun e f => f.1 = e.1 ∧ registry.Describes e.1 e.2 f.2) entries inputs from
    this registry h
  clear h
  intro entries
  induction entries with
  | nil =>
    intro inputs h
    obtain rfl := Except.ok.inj h
    exact .nil
  | cons e rest ih =>
    intro inputs h
    rw [List.mapM_cons] at h
    obtain ⟨_, hentry, h⟩ := Except.bind_eq_ok.1 h
    obtain ⟨more, hmore, h⟩ := Except.bind_eq_ok.1 h
    obtain rfl := Except.ok.inj h
    obtain ⟨_, hinput, hentry⟩ := Except.bind_eq_ok.1 hentry
    obtain rfl := Except.ok.inj hentry
    obtain ⟨i, hi, hinput⟩ := Except.bind_eq_ok.1 hinput
    exact .cons ⟨rfl, i, hi, (Except.ok.inj hinput).symm⟩ (ih hmore)

/-- A named type has a description if and only if it has an input, which is that of the
description. -/
theorem get?_inputs (h : registry.inputs = .ok inputs) (name : String) :
    (registry.get? name = none ∧ inputs.get? name = none) ∨ ∃ d i, registry.get? name = some d ∧
      d.input registry = .ok i ∧
      inputs.get? name = some (.referenced i (TypeName.dottedName name)) := by
  rcases Dict.get?_of_forall₂ (R := registry.Describes) (forall₂_of_inputs h) name with
    h | ⟨d, _, hd, hname, i, hi, rfl⟩
  · exact Or.inl h
  · exact Or.inr ⟨d, i, hd, hi, hname⟩

/-- A described type has the input of its description. -/
theorem exists_input {d : TypeDef} (h : registry.inputs = .ok inputs)
    (hd : registry.get? name = some d) : ∃ i, d.input registry = .ok i ∧
      inputs.get? name = some (.referenced i (TypeName.dottedName name)) := by
  rcases get?_inputs h name with ⟨hnone, -⟩ | ⟨d', i, hd', hi, hinput⟩
  · simp [hnone] at hd
  · obtain rfl : d' = d := Option.some.inj (hd'.symm.trans hd)
    exact ⟨i, hi, hinput⟩

/-- A type with an input is in the registry. -/
theorem contains_of_entry {entry : Input} (h : registry.inputs = .ok inputs)
    (hentry : inputs.get? name = some entry) : registry.contains name := by
  rcases get?_inputs h name with ⟨-, hnone⟩ | ⟨d, i, hd, -, -⟩
  · simp [hnone] at hentry
  · simp [Dict.contains, hd]

/-- What a description with an input mentions is in the registry. -/
theorem contains_of_mentions {d : TypeDef} {i : Input} (hi : d.input registry = .ok i)
    (hname : d.Mentions name) : registry.contains name := by
  induction d generalizing i with
  | struct keys ih =>
    obtain ⟨members, hmembers, -⟩ := TypeDef.input_struct hi
    obtain ⟨k, hk, hname⟩ := TypeDef.mentions_struct.1 hname
    obtain ⟨m, -, hm, -⟩ :=
      exists_of_forall₂_of_mem (TypeDef.forall₂_of_keyInputs hmembers) hk
    exact ih k hk hm hname
  | sum left right ihl ihr =>
    obtain ⟨l, r, hl, hr, -⟩ := TypeDef.input_sum hi
    exact (TypeDef.mentions_sum.1 hname).elim (ihl hl) (ihr hr)
  | constrained base rules ih =>
    obtain ⟨b, hb, -⟩ := TypeDef.input_constrained hi
    exact ih hb (TypeDef.mentions_constrained.1 hname)
  | array member ih =>
    obtain ⟨m, hm, -⟩ := TypeDef.input_array hi
    exact ih hm (TypeDef.mentions_array.1 hname)
  | enum values => exact absurd hname TypeDef.not_mentions_enum
  | scalar s => exact absurd hname TypeDef.not_mentions_scalar
  | named target => exact TypeDef.mentions_named.1 hname ▸ (TypeDef.input_named hi).1

/-- With inputs for all types, whatever is reachable from a type is in the registry. -/
theorem contains_of_reaches (h : registry.inputs = .ok inputs) (hroot : registry.contains root)
    (hr : registry.Reaches root name) : registry.contains name := by
  induction hr with
  | refl => exact hroot
  | @tail a b _ hm _ =>
    obtain ⟨d, hd, hb⟩ := hm
    obtain ⟨i, hi, -⟩ := exists_input h hd
    exact contains_of_mentions hi hb

/-! ## Leading on -/

/-- The description of `a` names `b` outside of records and arrays: through named references, unions
and constrained types alone. -/
def LeadsTo (registry : Registry) (a b : String) : Prop :=
  ∃ d, registry.get? a = some d ∧ b ∈ d.heads

/-- No type that is reachable from `root` leads back to itself. -/
def Guarded (registry : Registry) (root : String) : Prop :=
  ∀ name, registry.Reaches root name → ¬Relation.TransGen registry.LeadsTo name name

omit [Regex.Engine] in
theorem LeadsTo.mentions {a b : String} (h : registry.LeadsTo a b) : registry.Mentions a b := by
  obtain ⟨d, hd, hb⟩ := h
  exact ⟨d, hd, TypeDef.mentions_of_mem_heads hb⟩

omit [Regex.Engine] in
theorem LeadsTo.mem_names {a b : String} (h : registry.LeadsTo a b) : a ∈ registry.names := by
  obtain ⟨d, hd, -⟩ := h
  exact Dict.contains_iff.1 (by simp [Dict.contains, hd])

omit [Regex.Engine] in
/-- **In a guarded registry, leading on cannot go on for ever**: `LeadsTo` is well-founded on what
is reachable, as there are finitely many types. -/
theorem Guarded.wellFounded (h : registry.Guarded root) :
    WellFounded fun b a => registry.Reaches root a ∧ registry.LeadsTo a b := by
  -- on the finitely many names of the registry, leading on in several steps is a strict order
  let r (b a : {name // name ∈ registry.names}) : Prop :=
    registry.Reaches root a ∧ Relation.TransGen registry.LeadsTo a b
  have htrans : IsTrans _ r := ⟨fun c b a hcb hba => ⟨hba.1, hba.2.trans hcb.2⟩⟩
  have hirrefl : Std.Irrefl r := ⟨fun a ha => h a ha.1 ha.2⟩
  have hwf : WellFounded r := Finite.wellFounded_of_trans_of_irrefl r
  have hout : ∀ a, a ∉ registry.names →
      Acc (fun b a => registry.Reaches root a ∧ registry.LeadsTo a b) a := fun a ha =>
    ⟨a, fun b hb => absurd hb.2.mem_names ha⟩
  have hin : ∀ a : {name // name ∈ registry.names},
      Acc (fun b a => registry.Reaches root a ∧ registry.LeadsTo a b) a.1 := fun a => by
    induction a using hwf.induction with
    | _ a ih =>
      refine ⟨a.1, fun b hb => ?_⟩
      by_cases hb' : b ∈ registry.names
      · exact ih ⟨b, hb'⟩ ⟨hb.1, .single hb.2⟩
      · exact hout b hb'
  refine ⟨fun a => ?_⟩
  by_cases ha : a ∈ registry.names
  · exact hin ⟨a, ha⟩
  · exact hout a ha

/-! ## Answers -/

/-- The meaning of deferred definitions, looked up as often as it takes: `Input.call` for each. -/
abbrev meaning (inputs : Dict Input) (name : String) (v : Json) : Outcome :=
  (inputs.get? name).bind fun i => Input.call inputs i v

theorem meaning_eq (inputs : Dict Input) (name : String) (v : Json) : meaning inputs name v =
    (inputs.get? name).bind fun i => Input.callWith (meaning inputs) i v :=
  Input.unlimited_call inputs name v

/-- A call of an entry is a lookup. -/
theorem lookup_of_call {entry : Input} {v : Json} {r : Checked}
    (hentry : inputs.get? name = some entry) (h : Input.call inputs entry v = some r) :
    Input.lookup inputs (inputs.length * (v.depth + 1) + 1) name v = some r := by
  rw [Input.lookup_succ, hentry]
  exact h

/-- **What looked up types accept**, by induction on the number of lookups: `P` holds of a type if
it holds of those that its description mentions. -/
theorem lookup_induction (h : registry.inputs = .ok inputs) {P : String → Json → Json → Prop}
    (step : ∀ limit name d i v w, registry.Reaches root name → registry.get? name = some d →
      d.input registry = .ok i →
      (∀ n, d.Mentions n → ∀ u y, Input.lookup inputs limit n u = some (.ok y) → P n u y) →
      Input.callWith (Input.lookup inputs limit) i v = some (.ok w) → P name v w)
    (limit : Nat) (hname : registry.Reaches root name) {v w : Json}
    (hw : Input.lookup inputs limit name v = some (.ok w)) : P name v w := by
  induction limit generalizing name v w with
  | zero => simp [Input.lookup_zero] at hw
  | succ limit ih =>
    rw [Input.lookup_succ] at hw
    rcases get?_inputs h name with ⟨-, hnone⟩ | ⟨d, i, hd, hi, hinput⟩
    · simp [hnone] at hw
    · rw [hinput, Option.bind_some, Input.callAt_eq] at hw
      exact step limit name d i v w hname hd hi (fun n hn u y hy => ih (hname.tail ⟨d, hd, hn⟩) hy)
        hw

omit [Regex.Engine] in
/-- What has been shown of all names in scope, on a value, holds of the names of guarded types. -/
theorem Guarded.induction (hguarded : registry.Guarded root) {P : String → Json → Prop}
    (step : ∀ name d v, registry.Reaches root name → registry.get? name = some d →
      (∀ n u, d.Scope v n u → P n u) → P name v)
    (hcontains : ∀ name, registry.Reaches root name → registry.contains name)
    (hname : registry.Reaches root name) (v : Json) : P name v := by
  induction hk : v.depth using Nat.strong_induction_on generalizing name v with
  | _ k ihv =>
    subst hk
    induction name using hguarded.wellFounded.induction with
    | _ name ihn =>
      obtain ⟨d, hd⟩ := Option.isSome_iff_exists.1 (hcontains name hname)
      refine step name d v hname hd fun n u hu => ?_
      rcases hu with ⟨hn, rfl⟩ | ⟨hn, hu⟩
      · have hlead : registry.LeadsTo name n := ⟨d, hd, hn⟩
        exact ihn n ⟨hname, hlead⟩ (hname.tail hlead.mentions)
      · exact ihv u.depth hu (hname.tail ⟨d, hd, hn⟩) u rfl

/-- **Every value has an answer in a guarded registry**: `Input.call` has lookups enough. -/
theorem Guarded.answers (hguarded : registry.Guarded root) (h : registry.inputs = .ok inputs)
    (hroot : registry.contains root) (hname : registry.Reaches root name) (v : Json) :
    Input.Answers (meaning inputs) (.defer name) v := by
  refine hguarded.induction (P := fun name v => Input.Answers (meaning inputs) (.defer name) v)
    (fun name d v hname hd ih => ?_) (fun _ => contains_of_reaches h hroot) hname v
  obtain ⟨i, hi, hinput⟩ := exists_input h hd
  change (meaning inputs name v).isSome
  rw [meaning_eq, hinput]
  exact TypeDef.of_scope (i := i) (fun _ _ _ => Input.answers_of_asks) hi ih

end Registry

end JsonShape
