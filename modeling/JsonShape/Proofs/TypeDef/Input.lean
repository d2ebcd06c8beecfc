import JsonShape.Proofs.Input.Calls
import JsonShape.Proofs.Input.Projection
import JsonShape.Proofs.Node.Admits
import JsonShape.Registry.Inputs

/-!
# Inputs of type descriptions

A type description is turned into an input shape by shape. Here is what the input of each shape is,
once there is one, and what the rules of a constrained type do to it: they are refinements around it
(`Refined`).

* `input_struct`, `input_sum` and the like: the input of a description, from those of its parts.
* `Refined.exists_test`: refinements are one test of the accepted value.
* `accepts_scalarInput`, `accepts_enum_any`: what the inputs without parts accept.
-/

namespace JsonShape

namespace TypeDef

variable [Regex.Engine] {registry : Registry} {deferred : String → Json → Outcome} {i : Input}
  {v : Json}

/-! ## Shape by shape -/

theorem input_struct {keys : List (Member TypeDef)} (h : (struct keys).input registry = .ok i) :
    ∃ members, keyInputs registry keys = .ok members ∧ i = .object members := by
  obtain ⟨members, hmembers, h⟩ := Except.bind_eq_ok.1 h
  exact ⟨members, hmembers, (Except.ok.inj h).symm⟩

theorem input_sum {left right : TypeDef} (h : (sum left right).input registry = .ok i) :
    ∃ l r, left.input registry = .ok l ∧ right.input registry = .ok r ∧ i = .either l r := by
  obtain ⟨l, hl, h⟩ := Except.bind_eq_ok.1 h
  obtain ⟨r, hr, h⟩ := Except.bind_eq_ok.1 h
  exact ⟨l, r, hl, hr, (Except.ok.inj h).symm⟩

theorem input_constrained {base : TypeDef} {rules : List Constraint}
    (h : (constrained base rules).input registry = .ok i) :
    ∃ b, base.input registry = .ok b ∧ refineAll b rules = .ok i :=
  Except.bind_eq_ok.1 h

theorem input_array {member : TypeDef} (h : (array member).input registry = .ok i) :
    ∃ m, member.input registry = .ok m ∧ i = .list m := by
  obtain ⟨m, hm, h⟩ := Except.bind_eq_ok.1 h
  exact ⟨m, hm, (Except.ok.inj h).symm⟩

theorem input_enum {values : List Literal} (h : (enum values).input registry = .ok i) :
    i = .enum .any (values.map Literal.toJson) := (Except.ok.inj h).symm

theorem input_scalar {s : Scalar} (h : (scalar s).input registry = .ok i) : i = scalarInput s :=
  (Except.ok.inj h).symm

theorem input_named {name : String} (h : (named name).input registry = .ok i) :
    registry.contains name ∧ i = .defer name := by
  rw [input] at h
  split at h
  · next hname => exact ⟨hname, (Except.ok.inj h).symm⟩
  · simp at h

/-- The input of a record is that of its keys, one by one, each declared like the key. -/
theorem declared_of_keyInputs {keys : List (Member TypeDef)} {members : List (Member Input)}
    (h : keyInputs registry keys = .ok members) :
    List.Forall₂ (fun k m => k.value.input registry = .ok m.value ∧
      m = ⟨k.key, m.value, k.required, k.description⟩) keys members := by
  induction keys generalizing members with
  | nil =>
    obtain rfl := Except.ok.inj h
    exact .nil
  | cons k rest ih =>
    obtain ⟨value, hvalue, h⟩ := Except.bind_eq_ok.1 h
    obtain ⟨more, hmore, h⟩ := Except.bind_eq_ok.1 h
    obtain rfl := Except.ok.inj h
    exact .cons ⟨hvalue, rfl⟩ (ih hmore)

theorem forall₂_of_keyInputs {keys : List (Member TypeDef)} {members : List (Member Input)}
    (h : keyInputs registry keys = .ok members) :
    List.Forall₂ (fun k m => k.value.input registry = .ok m.value ∧ m.key = k.key ∧
      m.required = k.required) keys members :=
  (declared_of_keyInputs h).imp fun _ _ ⟨hvalue, hm⟩ => ⟨hvalue, by rw [hm], by rw [hm]⟩

/-- The declarations of a record with distinct keys are all in force. -/
theorem distinct_of_keyInputs {keys : List (Member TypeDef)} {members : List (Member Input)}
    (h : keyInputs registry keys = .ok members) (hkeys : (Member.keys keys).Nodup) :
    Member.distinct members = members := by
  refine Member.distinct_of_nodup ?_
  have hsame : Member.keys members = Member.keys keys := by
    replace h := forall₂_of_keyInputs h
    clear hkeys
    induction h with
    | nil => rfl
    | cons hkm _ ih => exact congrArg₂ List.cons hkm.2.1 ih
  rwa [hsame]

/-! ## Rules -/

/-- The second input is `b` with refinements around it. -/
inductive Refined (b : Input) : Input → Prop
  | base : Refined b b
  | pattern {i : Input} (h : Refined b i) (regex : Regex) : Refined b (.pattern i regex)
  | inRange {i : Input} (h : Refined b i) (interval : Interval) : Refined b (.inRange i interval)
  | multipleOf {i : Input} (h : Refined b i) (factor : Binary64) : Refined b (.multipleOf i factor)

theorem Refined.refine {b i' : Input} {rule : Constraint} (h : Refined b i)
    (hi : rule.refine i = .ok i') : Refined b i' := by
  cases rule with
  | pattern text =>
    rw [Constraint.refine] at hi
    split at hi
    · obtain rfl := Except.ok.inj hi
      exact h.pattern _
    · simp at hi
  | multipleOf factor =>
    obtain rfl := Except.ok.inj hi
    exact h.multipleOf factor
  | minimum _ | maximum _ | exclusiveMinimum _ | exclusiveMaximum _ =>
    obtain rfl := Except.ok.inj hi
    exact h

/-- Rules refine an input. -/
theorem refined_refineAll {rules : List Constraint} {b i' : Input}
    (h : refineAll b rules = .ok i') : Refined b i' := by
  suffices ∀ i, Refined b i → rules.foldlM Constraint.refine i = .ok i' → Refined b i' by
    refine this _ ?_ h
    split
    · exact .inRange .base _
    · exact .base
  clear h
  induction rules with
  | nil =>
    intro i hi h
    obtain rfl := Except.ok.inj h
    exact hi
  | cons rule rest ih =>
    intro i hi h
    change (rule.refine i).bind (fun j => rest.foldlM Constraint.refine j) = .ok i' at h
    obtain ⟨j, hj, h⟩ := Except.bind_eq_ok.1 h
    exact ih j (hi.refine hj) h

/-- **Refinements are one test of the accepted value**, which every container passes, so `i` accepts
what `b` accepts and the test holds of. -/
theorem Refined.exists_test {b : Input} (h : Refined b i) : ∃ test : Json → Bool,
    (∀ u : Json, u.isContainer → test u) ∧ ∀ deferred v w,
      Input.callWith deferred i v = some (.ok w) ↔
        Input.callWith deferred b v = some (.ok w) ∧ test w := by
  induction h with
  | base => exact ⟨fun _ => true, fun _ _ => rfl, fun _ _ _ => (and_iff_left rfl).symm⟩
  | pattern h regex ih =>
    obtain ⟨test, hcontainer, hcall⟩ := ih
    refine ⟨fun w => test w && Input.fits regex w, fun u hu => ?_, fun deferred v w => ?_⟩
    · simp [hcontainer u hu, Input.fits_of_isContainer hu]
    · rw [Input.callWith_pattern_eq_ok, hcall, Bool.and_eq_true, and_assoc]
  | inRange h interval ih =>
    obtain ⟨test, hcontainer, hcall⟩ := ih
    refine ⟨fun w => test w && Input.liesIn interval w, fun u hu => ?_, fun deferred v w => ?_⟩
    · simp [hcontainer u hu, Input.liesIn_of_isContainer hu]
    · rw [Input.callWith_inRange_eq_ok, hcall, Bool.and_eq_true, and_assoc]
  | multipleOf h factor ih =>
    obtain ⟨test, hcontainer, hcall⟩ := ih
    refine ⟨fun w => test w && Input.isDivided factor w, fun u hu => ?_, fun deferred v w => ?_⟩
    · simp [hcontainer u hu, Input.isDivided_of_isContainer hu]
    · rw [Input.callWith_multipleOf_eq_ok, hcall, Bool.and_eq_true, and_assoc]

/-- What a refined input accepts, the input accepts. -/
theorem Refined.accepts {b : Input} (h : Refined b i) (hv : Input.Accepts deferred i v) :
    Input.Accepts deferred b v := by
  obtain ⟨test, -, hcall⟩ := h.exists_test
  obtain ⟨w, hw⟩ := hv
  exact ⟨w, ((hcall deferred v w).1 hw).1⟩

/-! ## Inputs without parts -/

/-- A basic type accepts its values as they are. -/
theorem callWith_scalarInput_eq_ok {s : Scalar} {w : Json} :
    Input.callWith deferred (scalarInput s) v = some (.ok w) ↔ s.admits v ∧ w = v := by
  cases s with
  | any =>
    exact ⟨fun h => ⟨rfl, (Except.ok.inj (Option.some.inj h)).symm⟩, fun h => by rw [h.2]; rfl⟩
  | _ => exact Option.some_inj.trans Checked.check_eq_ok

theorem accepts_scalarInput {s : Scalar} :
    Input.Accepts deferred (scalarInput s) v ↔ s.admits v := by
  simp only [Input.Accepts, callWith_scalarInput_eq_ok, exists_eq_right]

theorem accepts_enum_any {values : List Json} :
    Input.Accepts deferred (.enum .any values) v ↔ Input.isMember values v := by
  constructor
  · rintro ⟨w, hw⟩
    obtain ⟨hv, hw⟩ := Input.callWith_enum_eq_ok.1 hw
    obtain rfl : v = w := Except.ok.inj (Option.some.inj hv)
    exact hw
  · exact fun h => ⟨v, Input.callWith_enum_eq_ok.2 ⟨rfl, h⟩⟩

end TypeDef

end JsonShape
