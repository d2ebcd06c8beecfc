import JsonShape.Proofs.Registry.Guarded
import JsonShape.Regex.Pattern

/-!
# Rules as one filter

The rules of a constrained type are read twice: once for the interval of all bounds, and once for
wrappers around the input, one for each of the other rules. What comes of it is one filter of the
values that the base accepts. It refuses a value with the message of the first check that fails: the
interval is checked first, wherever its rules stand, then the other rules in their order.

* `Interval.refusal?` and `Constraint.refusal?`: single checks. Values of other kinds pass them.
* `TypeDef.interval`: the interval of the last rule for each end.
* `TypeDef.callWith_refineAll`: the input of a constrained type, as a filter of its base.
-/

namespace JsonShape

variable {v w : Json}

/-! ## Filters -/

namespace Checked

/-- Refuses an accepted value with a message, if there is one about it. -/
def refuse (refusal? : Json → Option String) : Checked → Checked
  | .ok w =>
    match refusal? w with
    | none => .ok w
    | some text => .error (.message text)
  | .error report => .error report

theorem refuse_none (r : Checked) : refuse (fun _ => none) r = r := by
  cases r <;> rfl

/-- What `f` lets through, `g` is asked. -/
theorem refuse_refuse (f g : Json → Option String) (r : Checked) :
    refuse g (refuse f r) = refuse (fun w => (f w).or (g w)) r := by
  cases r with
  | error report => rfl
  | ok w => cases hf : f w <;> simp [refuse, hf]

theorem refine_eq_refuse (r : Checked) (test : Json → Bool) (message : String) :
    refine r test message = refuse (fun w => if test w then none else some message) r := by
  cases r with
  | error report => rfl
  | ok w => cases h : test w <;> simp [refine, refuse, check, h]

end Checked

/-! ## Single checks -/

/-- The message about a number outside the interval. Numbers are compared as floating-point
numbers. -/
def Interval.refusal? (i : Interval) : Json → Option String
  | .number n =>
    if n.toBinary64?.all i.contains then none else some ("must be in range " ++ i.text)
  | _ => none

theorem Interval.refusal?_full (w : Json) : full.refusal? w = none := by
  cases w with
  | number n =>
    have hall : n.toBinary64?.all full.contains = true := by cases n.toBinary64? <;> rfl
    rw [refusal?, if_pos hall]
  | _ => rfl

namespace Constraint

variable [Regex.Engine]

/-- The message about a string that a pattern does not match, or a number that a factor does not
divide. Bounds are left to the `interval`. -/
def refusal? : Constraint → Json → Option String
  | pattern text, .string s =>
    if (Regex.compile? text).any fun regex => regex.isMatch s then none
    else some ("must match /" ++ text ++ "/")
  | multipleOf factor, .number n =>
    if n.isMultipleOf factor then none
    else some ("must be a multiple of " ++ (Number.plain factor).text)
  | _, _ => none

/-- The lower end that a rule sets. -/
def lowerEnd? : Constraint → Option Endpoint
  | minimum x => some (.included x)
  | exclusiveMinimum x => some (.excluded x)
  | _ => none

/-- The upper end that a rule sets. -/
def upperEnd? : Constraint → Option Endpoint
  | maximum x => some (.included x)
  | exclusiveMaximum x => some (.excluded x)
  | _ => none

end Constraint

namespace TypeDef

variable [Regex.Engine] {registry : Registry} {deferred : String → Json → Outcome}
  {rules : List Constraint}
  {b i : Input}

/-- The interval of some rules: each end is set by the last rule for it. -/
def interval (rules : List Constraint) : Interval where
  lower := (rules.filterMap Constraint.lowerEnd?).getLast?.getD .unbounded
  upper := (rules.filterMap Constraint.upperEnd?).getLast?.getD .unbounded

/-- The message of the first check that a value fails: the interval, then the other rules. -/
def refusal? (rules : List Constraint) (w : Json) : Option String :=
  ((interval rules).refusal? w).or (rules.findSome? fun rule => rule.refusal? w)

/-! ## The interval -/

omit [Regex.Engine] in
theorem bounds?_append_singleton (rules : List Constraint) (rule : Constraint) :
    bounds? (rules ++ [rule]) =
      (rule.bound? ((bounds? rules).getD .full)).or (bounds? rules) := by
  rw [bounds?, List.foldl_append, List.foldl_cons, List.foldl_nil, ← bounds?]
  cases rule.bound? ((bounds? rules).getD .full) <;> rfl

omit [Regex.Engine] in
/-- **Bounds fold into the interval of the last rule for each end**, by induction on `rules` from
the last one on. -/
theorem getD_bounds? (rules : List Constraint) : (bounds? rules).getD .full = interval rules := by
  induction rules using List.reverseRecOn with
  | nil => rfl
  | append_singleton rest rule ih =>
    rw [bounds?_append_singleton, ih]
    cases rule <;>
      simp [Constraint.bound?, interval, Constraint.lowerEnd?, Constraint.upperEnd?, ih]

/-! ## Wrappers -/

omit [Regex.Engine] in
theorem bind_refine_eq_map {o : Outcome} {test : Json → Bool} {message : String}
    {refusal? : Json → Option String}
    (h : ∀ w, refusal? w = if test w then none else some message) :
    (o.bind fun r => some (Checked.refine r test message)) = o.map (Checked.refuse refusal?) := by
  rw [Option.map_eq_bind, funext h]
  exact congrArg o.bind (funext fun r => congrArg some (Checked.refine_eq_refuse r test message))

omit [Regex.Engine] in
theorem map_refuse_none (o : Outcome) : o.map (Checked.refuse fun _ => none) = o := by
  rw [funext Checked.refuse_none, Option.map_id']

/-- A wrapper refuses what the check of its rule refuses; a bound has no wrapper. -/
theorem callWith_refine {rule : Constraint} (h : rule.refine b = .ok i) :
    Input.callWith deferred i v =
      (Input.callWith deferred b v).map (Checked.refuse rule.refusal?) := by
  cases rule with
  | pattern text =>
    rw [Constraint.refine] at h
    split at h
    · next regex hregex =>
      obtain rfl := Except.ok.inj h
      refine bind_refine_eq_map fun w => ?_
      cases w with
      | string s =>
        have hmessage : Input.patternMessage regex = "must match /" ++ text ++ "/" := by
          rw [Input.patternMessage, Regex.source_of_compile? hregex]
        rw [Constraint.refusal?, hregex, Option.any_some, hmessage]
        rfl
      | _ => rfl
    · cases h
  | multipleOf factor =>
    obtain rfl := Except.ok.inj h
    refine bind_refine_eq_map fun w => ?_
    cases w <;> rfl
  | minimum _ | maximum _ | exclusiveMinimum _ | exclusiveMaximum _ =>
    obtain rfl := Except.ok.inj h
    exact (map_refuse_none _).symm

/-- The wrappers check their rules in the order of `rules`, by induction on those. -/
theorem callWith_foldlM (h : rules.foldlM Constraint.refine b = .ok i) :
    Input.callWith deferred i v = (Input.callWith deferred b v).map
      (Checked.refuse fun w => rules.findSome? fun rule => rule.refusal? w) := by
  induction rules generalizing b with
  | nil =>
    obtain rfl := Except.ok.inj h
    exact (map_refuse_none _).symm
  | cons rule rest ih =>
    obtain ⟨j, hj, h⟩ := Except.bind_eq_ok.1 h
    rw [ih h, callWith_refine hj, Option.map_map]
    refine congrArg (Option.map · _) (funext fun r => ?_)
    rw [Function.comp_apply, Checked.refuse_refuse]
    refine congrArg (Checked.refuse · r) (funext fun w => ?_)
    rw [List.findSome?_cons]
    cases rule.refusal? w <;> rfl

/-- The interval is checked first, with a wrapper if there is a bound. -/
theorem exists_bounded (h : refineAll b rules = .ok i) :
    ∃ j, rules.foldlM Constraint.refine j = .ok i ∧ ∀ deferred v, Input.callWith deferred j v =
      (Input.callWith deferred b v).map (Checked.refuse (interval rules).refusal?) := by
  rw [← getD_bounds?]
  rw [refineAll] at h
  cases hbounds : bounds? rules with
  | none =>
    have hnone : Interval.full.refusal? = fun _ => none := funext Interval.refusal?_full
    rw [hbounds] at h
    exact ⟨b, h, fun deferred v => by rw [Option.getD_none, hnone, map_refuse_none]⟩
  | some interval =>
    rw [hbounds] at h
    refine ⟨.inRange b interval, h, fun deferred v => bind_refine_eq_map fun w => ?_⟩
    cases w <;> rfl

/-- **The rules of a constrained type are one filter** of what the base `b` answers. -/
theorem callWith_refineAll (h : refineAll b rules = .ok i) :
    Input.callWith deferred i v =
      (Input.callWith deferred b v).map (Checked.refuse (refusal? rules)) := by
  obtain ⟨j, hj, hbounded⟩ := exists_bounded h
  rw [callWith_foldlM hj, hbounded, Option.map_map]
  refine congrArg (Option.map · _) (funext fun r => ?_)
  rw [Function.comp_apply, Checked.refuse_refuse]
  rfl

/-! ## Constrained types of a registry -/

/-- The parts of a description that has an input have inputs. -/
theorem exists_input_of_mem_parts {d p : TypeDef} (hi : d.input registry = .ok i)
    (hp : p ∈ d.parts) : ∃ j, p.input registry = .ok j := by
  induction d generalizing i with
  | struct keys ih =>
    rcases List.mem_cons.1 hp with rfl | hp
    · exact ⟨i, hi⟩
    · obtain ⟨members, hmembers, rfl⟩ := input_struct hi
      obtain ⟨k, hk, hp⟩ := mem_keyParts.1 hp
      obtain ⟨m, -, hvalue, -⟩ := exists_of_forall₂_of_mem (declared_of_keyInputs hmembers) hk
      exact ih k hk hvalue hp
  | sum left right ihl ihr =>
    obtain ⟨l, r, hl, hr, -⟩ := input_sum hi
    rcases List.mem_cons.1 hp with rfl | hp
    · exact ⟨i, hi⟩
    · exact (List.mem_append.1 hp).elim (ihl hl) (ihr hr)
  | constrained base rules ih =>
    obtain ⟨b, hb, -⟩ := input_constrained hi
    rcases List.mem_cons.1 hp with rfl | hp
    · exact ⟨i, hi⟩
    · exact ih hb hp
  | array member ih =>
    obtain ⟨m, hm, -⟩ := input_array hi
    rcases List.mem_cons.1 hp with rfl | hp
    · exact ⟨i, hi⟩
    · exact ih hm hp
  | enum values | scalar s | named name => exact List.mem_singleton.1 hp ▸ ⟨i, hi⟩

end TypeDef

namespace Registry

open TypeDef (interval)

variable [Regex.Engine] {registry : Registry} {inputs : Dict Input}

/-- **The rules of a constrained type are one filter.** In a registry that has inputs, let a type be
constrained by `rules`, at any depth of a description. What its base rejects, it rejects with the
same report. What its base accepts as `w` is accepted as `w` if `w` lies in `interval rules`, that
of the last rules for both ends, or is no number, and passes every pattern and every factor.
Otherwise it is refused with a single message: that of the interval if `w` lies outside, wherever
the bounds stand among the rules, and else that of the first rule that `w` fails. Numbers are
compared as floating-point numbers. -/
theorem constrained_filters (hinputs : registry.inputs = .ok inputs) {entry : String × TypeDef}
    (hentry : entry ∈ registry) {base : TypeDef} {rules : List Constraint}
    (hpart : .constrained base rules ∈ entry.2.parts) :
    ∃ b i, base.input registry = .ok b ∧ (TypeDef.constrained base rules).input registry = .ok i ∧
      ∀ v, (Input.call inputs b v = none → Input.call inputs i v = none) ∧
        (∀ report, Input.call inputs b v = some (.error report) →
          Input.call inputs i v = some (.error report)) ∧
        ∀ w, Input.call inputs b v = some (.ok w) →
          ((interval rules).refusal? w = none → (∀ rule ∈ rules, rule.refusal? w = none) →
            Input.call inputs i v = some (.ok w)) ∧
          (∀ text, (interval rules).refusal? w = some text →
            Input.call inputs i v = some (.error (.message text))) ∧
          ∀ before rule after text, (interval rules).refusal? w = none →
            rules = before ++ rule :: after → (∀ earlier ∈ before, earlier.refusal? w = none) →
            rule.refusal? w = some text →
            Input.call inputs i v = some (.error (.message text)) := by
  obtain ⟨f, -, -, d, hd, -⟩ := exists_of_forall₂_of_mem (forall₂_of_inputs hinputs) hentry
  obtain ⟨i, hi⟩ := TypeDef.exists_input_of_mem_parts hd hpart
  obtain ⟨b, hb, hrefine⟩ := TypeDef.input_constrained hi
  refine ⟨b, i, hb, hi, fun v => ?_⟩
  have hcall : Input.call inputs i v =
      (Input.call inputs b v).map (Checked.refuse (TypeDef.refusal? rules)) := by
    rw [Input.call_eq, Input.call_eq]
    exact TypeDef.callWith_refineAll hrefine
  have haccepted : ∀ w, Input.call inputs b v = some (.ok w) → Input.call inputs i v =
      some (match TypeDef.refusal? rules w with
        | none => .ok w
        | some text => .error (.message text)) := fun w hw => by
    rw [hcall, hw]
    rfl
  refine ⟨fun hv => by rw [hcall, hv]; rfl, fun report hv => by rw [hcall, hv]; rfl, fun w hw => ?_⟩
  rw [haccepted w hw]
  refine ⟨fun hin hall => ?_, fun text hout => ?_,
    fun before rule after text hin hrules hall hfail => ?_⟩
  · rw [TypeDef.refusal?, hin, Option.none_or, List.findSome?_eq_none_iff.2 hall]
  · rw [TypeDef.refusal?, hout, Option.some_or]
  · have hfirst : rules.findSome? (fun rule => rule.refusal? w) = some text := by
      rw [hrules, List.findSome?_append, List.findSome?_eq_none_iff.2 hall, Option.none_or,
        List.findSome?_cons, hfail]
    rw [TypeDef.refusal?, hin, Option.none_or, hfirst]

end Registry

namespace Registry

open TypeDef (interval)

attribute [local instance] Regex.Engine.standard

/-- Shares of a whole in quarters, or texts that start with a one. An eighth is no number of
quarters; less than nothing is out of range, though the factor stands first. -/
theorem constrained_filters_share :
    let quarter : Binary64 := ⟨false, 1 <<< 52, 1020, by decide⟩
    let eighth : Binary64 := ⟨false, 1 <<< 52, 1019, by decide⟩
    let whole : Binary64 := ⟨false, 1 <<< 52, 1022, by decide⟩
    let rules : List Constraint :=
      [.multipleOf quarter, .pattern "^1", .exclusiveMinimum .zero, .maximum whole]
    let share : TypeDef := .constrained (.scalar .any) rules
    let registry : Registry := [("Split", .struct [⟨"share", share, true, none⟩])]
    ∃ inputs i, registry.inputs = .ok inputs ∧ share.input registry = .ok i ∧
      Input.call inputs i (.number (.float eighth.neg)) =
        some (.error (.message "must be in range (0, 1]")) ∧
      Input.call inputs i (.number (.float eighth)) =
        some (.error (.message "must be a multiple of 0.25")) ∧
      Input.call inputs i (.string "100") = some (.ok (.string "100")) := by
  intro quarter eighth whole rules share registry
  obtain ⟨inputs, hinputs⟩ : ∃ inputs, registry.inputs = .ok inputs := ⟨_, rfl⟩
  have hpart : share ∈ (TypeDef.struct [⟨"share", share, true, none⟩]).parts := .tail _ (.head _)
  obtain ⟨b, i, hb, hi, hfilter⟩ := constrained_filters hinputs (.head _) hpart
  have hany : ∀ v, Input.call inputs b v = some (.ok v) := fun v => by
    rw [← Except.ok.inj hb, Input.call_eq]
    rfl
  refine ⟨inputs, i, hinputs, hi, ?_, ?_, ?_⟩
  · obtain ⟨-, -, hw⟩ := hfilter (.number (.float eighth.neg))
    obtain ⟨-, hout, -⟩ := hw _ (hany _)
    exact hout _ (by decide +kernel)
  · obtain ⟨-, -, hw⟩ := hfilter (.number (.float eighth))
    obtain ⟨-, -, hfail⟩ := hw _ (hany _)
    exact hfail [] (.multipleOf quarter) _ _ (by decide +kernel) rfl (by simp) (by decide +kernel)
  · obtain ⟨-, -, hw⟩ := hfilter (.string "100")
    obtain ⟨hpass, -⟩ := hw _ (hany _)
    refine hpass rfl ?_
    decide +kernel

end Registry

end JsonShape
