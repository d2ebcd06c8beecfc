import JsonShape.Proofs.Input.Components
import JsonShape.Proofs.Input.Limit

/-!
# Which checks call which

Checking a value against a shape checks it, or parts of it, against other shapes. If no chain of
such calls goes on for ever, checking ends, whatever the limit on lookups.

* `Input.Asks`: the calls for the parts of a shape; `Input.Calls`: those and lookups.
* `Input.Terminates`: no chain of calls from here goes on for ever.
* `answers_of_asks`: a shape answers if its parts do.
* `callAt_le_of_unlimited`: what is answered within some limit is what lookups answer that are
  followed without any.
-/

namespace JsonShape

namespace Input

variable [Regex.Engine] {deferred : String → Json → Outcome} {defs : Dict Input} {i : Input}
  {v : Json}

/-! ## Calls -/

/-- The shapes that a shape checks on the very value it is given. -/
def onSame : Input → List Input
  | .merge a b | .either a b => [a, b]
  | .optional a | .enum a _ | .pattern a _ | .inRange a _ | .multipleOf a _ | .mapped a _
  | .described a _ | .referenced a _ => [a]
  | _ => []

/-- `Asks p q` if checking `q`, a shape with a value, may check `p`, for a part of the shape. -/
inductive Asks : Input × Json → Input × Json → Prop
  | same {i j : Input} {v : Json} (hj : j ∈ i.onSame) : Asks (j, v) (i, v)
  | member {members : List (Member Input)} {m : Member Input} {ms : Dict Json} {x : Json}
      (hm : m ∈ Member.distinct members) (hx : ms.get? m.key = some x) :
      Asks (m.value, x) (.object members, .object ms)
  | item {item : Input} {xs : List Json} {x : Json} (hx : x ∈ xs) :
      Asks (item, x) (.list item, .array xs)

theorem Asks.mem_children {j : Input} {u : Json} (h : Asks (j, u) (i, v)) : j ∈ i.children := by
  cases h with
  | same hj =>
    cases i with
    | merge _ _ | either _ _ | optional _ | enum _ _ | pattern _ _ | inRange _ _ | multipleOf _ _
    | mapped _ _ | described _ _ | referenced _ _ => exact hj
    | _ => cases hj
  | member hm _ => exact List.mem_map_of_mem (Member.mem_of_mem_distinct hm)
  | item _ => exact .head _

/-- `Calls defs p q` if checking `q` may check `p`, for a part of the shape or for the definition of
`defs` that the shape names. -/
inductive Calls (defs : Dict Input) : Input × Json → Input × Json → Prop
  | asks {p q : Input × Json} (h : Asks p q) : Calls defs p q
  | lookup {name : String} {i : Input} {v : Json} (hi : defs.get? name = some i) :
      Calls defs (i, v) (.defer name, v)

/-- No chain of calls that starts with `i` and `v` goes on for ever: the pair is accessible under
`Calls defs`. -/
def Terminates (defs : Dict Input) (i : Input) (v : Json) : Prop := Acc (Calls defs) (i, v)

/-- A shape terminates if its parts do, unless it is a lookup. -/
theorem terminates_of_asks (hi : ∀ name, i ≠ .defer name)
    (h : ∀ j u, Asks (j, u) (i, v) → Terminates defs j u) : Terminates defs i v := by
  refine ⟨_, fun ⟨j, u⟩ hcall => ?_⟩
  cases hcall with
  | asks hask => exact h j u hask
  | lookup hi' => exact absurd rfl (hi _)

/-- A lookup terminates if the definition does. -/
theorem terminates_defer {name : String}
    (h : ∀ i, defs.get? name = some i → Terminates defs i v) :
    Terminates defs (.defer name) v := by
  refine ⟨_, fun ⟨j, u⟩ hcall => ?_⟩
  cases hcall with
  | asks hask =>
    cases hask with
    | same hj => cases hj
  | lookup hi => exact h j hi

/-! ## Answers -/

theorem answers_merge {parent child : Input} : Answers deferred (.merge parent child) v ↔
    Answers deferred parent v ∧ Answers deferred child v := by
  rw [Answers, callWith_merge, Answers, Answers]
  cases callWith deferred parent v <;> cases callWith deferred child v <;> simp

omit [Regex.Engine] in
/-- A refined shape answers if the inner one does. -/
theorem isSome_bind_refine {o : Outcome} {test : Json → Bool} {message : String} :
    (o.bind fun r => some (Checked.refine r test message)).isSome ↔ o.isSome := by
  cases o <;> simp

/-- **A shape answers if its parts do**, unless it is a lookup: it is enough to have an answer for
every pair that `i` and `v` ask. -/
theorem answers_of_asks (hi : ∀ name, i ≠ .defer name)
    (h : ∀ j u, Asks (j, u) (i, v) → Answers deferred j u) : Answers deferred i v := by
  cases i with
  | text _ | number | integer | boolean | null | any => exact rfl
  | object members =>
    refine answers_object.2 fun ms hv m hm x hx => ?_
    subst hv
    exact h _ _ (.member hm hx)
  | merge parent child =>
    have hparent : Answers deferred parent v := h _ _ (.same (.head _))
    have hchild : Answers deferred child v := h _ _ (.same (.tail _ (.head _)))
    exact answers_merge.2 ⟨hparent, hchild⟩
  | list item =>
    refine answers_list.2 fun xs hv x hx => ?_
    subst hv
    exact h _ _ (.item hx)
  | either left right =>
    have hleft : Answers deferred left v := h _ _ (.same (.head _))
    have hright : Answers deferred right v := h _ _ (.same (.tail _ (.head _)))
    exact answers_either.2 ⟨hleft, Or.inr hright⟩
  | optional inner =>
    have hinner : Answers deferred inner v := h _ _ (.same (.head _))
    cases v with
    | null => exact rfl
    | _ => exact hinner
  | enum inner _ | pattern inner _ | inRange inner _ | multipleOf inner _ =>
    have hinner : Answers deferred inner v := h _ _ (.same (.head _))
    exact isSome_bind_refine.2 hinner
  | mapped inner f =>
    have hinner : Answers deferred inner v := h _ _ (.same (.head _))
    exact Option.isSome_map.trans hinner
  | described inner _ | referenced inner _ =>
    have hinner : Answers deferred inner v := h _ _ (.same (.head _))
    exact hinner
  | defer name => exact absurd rfl (hi name)

/-! ## Lookups without a limit -/

/-- What lookups in `defs` mean where they are followed as often as they come: `deferred` solves the
equation that recursive definitions state. -/
def Unlimited (defs : Dict Input) (deferred : String → Json → Outcome) : Prop :=
  ∀ name v, deferred name v = (defs.get? name).bind fun i => callWith deferred i v

/-- What `callAt` answers within a limit is answered without one. -/
theorem callAt_le_of_unlimited (h : Unlimited defs deferred) (limit : Nat) (i : Input) (v : Json) :
    Le (callAt defs limit i v) (callWith deferred i v) := by
  induction limit generalizing i v with
  | zero =>
    rw [callAt_eq]
    exact callWith_le fun name u _ r hr => by simp [lookup_zero] at hr
  | succ limit ih =>
    rw [callAt_eq]
    refine callWith_le fun name u _ => ?_
    rw [lookup_succ, h name u]
    exact (Le.refl _).bind fun i => ih i u

/-- Calls are what lookups mean that are followed as often as they come. -/
theorem unlimited_call (defs : Dict Input) :
    Unlimited defs fun name v => (defs.get? name).bind fun i => call defs i v := by
  intro name v
  refine congrArg _ (funext fun i => ?_)
  exact call_eq defs i v

end Input

end JsonShape
