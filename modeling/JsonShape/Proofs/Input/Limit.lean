import JsonShape.Proofs.Input.Call
import JsonShape.Proofs.Json.Depth
import Mathlib.Data.Finset.Card

/-!
# Lookups without a limit

A call looks definitions up only so often inside one another. The limit is great enough: whatever
any limit answers, the call does (`callAt_le_call`), so that a call is what its shape means with
calls for the deferred definitions (`call_eq`).

A definition may be looked up on the value itself and on smaller parts of it. On each level of the
value, those definitions that are answered grow with the limit, and from the first limit on that
adds none, nothing is added any more. Hence there are as many useful limits as definitions on each
level, by induction on the depth.
-/

namespace JsonShape

namespace Input

/-! ## More is answered -/

/-- `b` is `a`, if there is any `a`: with a greater limit, an answer stays. -/
def Le {α : Type} (a b : Option α) : Prop := ∀ r, a = some r → b = some r

theorem Le.refl {α : Type} (a : Option α) : Le a a := fun _ h => h

theorem Le.trans {α : Type} {a b c : Option α} (h : Le a b) (h' : Le b c) : Le a c :=
  fun r hr => h' r (h r hr)

theorem Le.antisymm {α : Type} {a b : Option α} (h : Le a b) (h' : Le b a) : a = b :=
  Option.ext fun r => ⟨h r, h' r⟩

theorem Le.bind {α β : Type} {a b : Option α} {f g : α → Option β} (h : Le a b)
    (hfg : ∀ x, Le (f x) (g x)) : Le (a.bind f) (b.bind g) := by
  intro r hr
  obtain ⟨x, hx, hf⟩ := Option.bind_eq_some_iff.1 hr
  exact Option.bind_eq_some_iff.2 ⟨x, h x hx, hfg x r hf⟩

theorem Le.map {α β : Type} {a b : Option α} (f : α → β) (h : Le a b) : Le (a.map f) (b.map f) := by
  intro r hr
  obtain ⟨x, hx, hf⟩ := Option.map_eq_some_iff.1 hr
  exact Option.map_eq_some_iff.2 ⟨x, h x hx, hf⟩

theorem Le.mapM {α β : Type} {f g : α → Option β} {xs : List α} (h : ∀ x ∈ xs, Le (f x) (g x)) :
    Le (xs.mapM f) (xs.mapM g) := by
  induction xs with
  | nil => exact Le.refl _
  | cons x rest ih =>
    simp only [List.mapM_cons]
    exact (h x (.head _)).bind fun y => (ih fun z hz => h z (.tail _ hz)).bind fun _ => Le.refl _

variable [Regex.Engine] {deferred deferred' : String → Json → Outcome} {defs : Dict Input}

/-- **What is answered for definitions is answered for shapes.** Definitions are looked up on `v`
itself and on smaller values. -/
theorem callWith_le {i : Input} {v : Json}
    (h : ∀ name u, u = v ∨ u.depth < v.depth → Le (deferred name u) (deferred' name u)) :
    Le (callWith deferred i v) (callWith deferred' i v) := by
  induction i generalizing v with
  | text _ | number | integer | boolean | null | any => exact Le.refl _
  | object members ih =>
    cases v with
    | object ms =>
      rw [callWith_object, callWith_object]
      refine (Le.mapM fun m hm => Le.map _ ?_).map _
      unfold callMember
      split
      · next x hx =>
        have hlt := Json.depth_lt_of_get? hx
        refine (ih m (Member.mem_of_mem_distinct hm) fun name u hu => h name u (Or.inr ?_)).map _
        rcases hu with rfl | hu <;> omega
      · exact Le.refl _
    | _ => exact Le.refl _
  | merge parent child ihp ihc =>
    rw [callWith_merge, callWith_merge]
    exact (ihp h).bind fun _ => (ihc h).bind fun _ => Le.refl _
  | list item ih =>
    cases v with
    | array xs =>
      refine Le.map Checked.ofItems (Le.mapM fun x hx => ih fun name u hu => h name u (Or.inr ?_))
      have hlt := Json.depth_lt_of_mem hx
      rcases hu with rfl | hu <;> omega
    | _ => exact Le.refl _
  | either left right ihl ihr =>
    rw [callWith_either, callWith_either]
    refine (ihl h).bind fun r => ?_
    cases r with
    | ok w => exact Le.refl _
    | error l => exact (ihr h).map _
  | optional inner ih =>
    cases v with
    | null => exact Le.refl _
    | _ => exact ih h
  | enum inner _ ih | pattern inner _ ih | inRange inner _ ih | multipleOf inner _ ih =>
    exact (ih h).bind fun _ => Le.refl _
  | mapped inner f ih => exact (ih h).map _
  | described inner _ ih | referenced inner _ ih => exact ih h
  | defer name => exact h name v (Or.inl rfl)

/-! ## Limits -/

/-- A definition, looked up within a limit. -/
def lookup (defs : Dict Input) (limit : Nat) (name : String) (v : Json) : Outcome :=
  callAt defs limit (.defer name) v

theorem lookup_zero (name : String) (v : Json) : lookup defs 0 name v = none := rfl

theorem lookup_succ (limit : Nat) (name : String) (v : Json) :
    lookup defs (limit + 1) name v = (defs.get? name).bind fun i => callAt defs limit i v := rfl

theorem callAt_eq (limit : Nat) (i : Input) (v : Json) :
    callAt defs limit i v = callWith (lookup defs limit) i v := by
  cases limit <;> rfl

theorem callAt_le_succ (limit : Nat) (i : Input) (v : Json) :
    Le (callAt defs limit i v) (callAt defs (limit + 1) i v) := by
  induction limit generalizing i v with
  | zero =>
    rw [callAt_eq, callAt_eq]
    exact callWith_le fun name u _ r hr => by simp [lookup_zero] at hr
  | succ limit ih =>
    rw [callAt_eq, callAt_eq]
    refine callWith_le fun name u _ => ?_
    rw [lookup_succ, lookup_succ]
    exact (Le.refl _).bind fun i => ih i u

theorem callAt_le {limit limit' : Nat} (h : limit ≤ limit') (i : Input) (v : Json) :
    Le (callAt defs limit i v) (callAt defs limit' i v) := by
  induction h with
  | refl => exact Le.refl _
  | step _ ih => exact ih.trans (callAt_le_succ _ i v)

/-- The names that `defs` answers for `v` within `limit` lookups. -/
def answered (defs : Dict Input) (limit : Nat) (v : Json) : Finset String :=
  defs.names.toFinset.filter fun name => (lookup defs limit name v).isSome

theorem mem_answered {limit : Nat} {v : Json} {name : String} :
    name ∈ answered defs limit v ↔ (lookup defs limit name v).isSome := by
  rw [answered, Finset.mem_filter, List.mem_toFinset, and_iff_right_iff_imp]
  intro h
  cases limit with
  | zero => simp [lookup_zero] at h
  | succ limit =>
    refine Dict.contains_iff.1 ?_
    rw [lookup_succ] at h
    cases hd : defs.get? name with
    | none => simp [hd] at h
    | some i => simp [Dict.contains, hd]

theorem answered_mono {limit limit' : Nat} (h : limit ≤ limit') (v : Json) :
    answered defs limit v ⊆ answered defs limit' v := by
  intro name hname
  rw [mem_answered, Option.isSome_iff_exists] at hname ⊢
  obtain ⟨r, hr⟩ := hname
  exact ⟨r, callAt_le h _ v r hr⟩

theorem card_answered_le (limit : Nat) (v : Json) : (answered defs limit v).card ≤ defs.length :=
  calc (answered defs limit v).card
    _ ≤ defs.names.toFinset.card := Finset.card_filter_le _ _
    _ ≤ defs.names.length := List.toFinset_card_le _
    _ = defs.length := List.length_map _

/-- Where `limit'` answers no more definitions than `limit`, and none on smaller values, it answers
no more shapes. -/
theorem callAt_le_of_answered {limit limit' : Nat} {v : Json} (hle : limit ≤ limit')
    (hsmaller : ∀ u : Json, u.depth < v.depth → ∀ i, Le (callAt defs limit' i u)
      (callAt defs limit i u))
    (hanswered : answered defs limit' v ⊆ answered defs limit v) (i : Input) :
    Le (callAt defs limit' i v) (callAt defs limit i v) := by
  rw [callAt_eq, callAt_eq]
  refine callWith_le fun name u hu r hr => ?_
  rcases hu with rfl | hu
  · have hname : name ∈ answered defs limit u :=
      hanswered (mem_answered.2 (Option.isSome_iff_exists.2 ⟨r, hr⟩))
    obtain ⟨r', hr'⟩ := Option.isSome_iff_exists.1 (mem_answered.1 hname)
    have hsame : some r' = some r := (callAt_le hle _ u r' hr').symm.trans hr
    rw [hr', hsame]
  · exact hsmaller u hu _ r hr

/-! ## One level of the value -/

section Level

-- from `start` on, no greater limit answers more on smaller values
variable {start : Nat} {v : Json} (hsmaller : ∀ u : Json, u.depth < v.depth →
  ∀ limit i, Le (callAt defs limit i u) (callAt defs start i u))
include hsmaller

theorem callAt_le_add (n : Nat) (u : Json) (hu : u.depth < v.depth) (limit : Nat) (i : Input) :
    Le (callAt defs limit i u) (callAt defs (start + n) i u) :=
  (hsmaller u hu limit i).trans (callAt_le (Nat.le_add_right _ _) i u)

/-- A limit that adds no definition is followed by limits that add none. -/
theorem card_answered_succ (n : Nat)
    (hcard : (answered defs (start + n) v).card = (answered defs (start + (n + 1)) v).card) :
    (answered defs (start + (n + 1)) v).card = (answered defs (start + (n + 2)) v).card := by
  have heq : answered defs (start + n) v = answered defs (start + (n + 1)) v :=
    Finset.eq_of_subset_of_card_le (answered_mono (by omega) v) hcard.ge
  refine congrArg Finset.card (Finset.Subset.antisymm (answered_mono (by omega) v) ?_)
  intro name hname
  rw [mem_answered, Option.isSome_iff_exists] at hname ⊢
  obtain ⟨r, hr⟩ := hname
  refine ⟨r, ?_⟩
  rw [← Nat.add_assoc, lookup_succ] at hr ⊢
  refine (Le.refl _).bind (fun i => ?_) r hr
  exact callAt_le_of_answered (by omega) (fun u hu i => callAt_le_add hsmaller n u hu _ i) heq.ge i

/-- From `start` on, as many limits as `defs` is long answer all definitions that any limit does. -/
theorem answered_subset {n : Nat} (hn : defs.length ≤ n) :
    answered defs (start + n) v ⊆ answered defs (start + defs.length) v := by
  have hmono : Monotone fun n => (answered defs (start + n) v).card := fun a b hab =>
    Finset.card_le_card (answered_mono (Nat.add_le_add_left hab start) v)
  have hcard := Nat.stabilises_of_monotone hmono (fun m => card_answered_le (start + m) v)
    (card_answered_succ hsmaller) hn
  exact (Finset.eq_of_subset_of_card_le (answered_mono (by omega) v) hcard.le).ge

theorem callAt_le_level (limit : Nat) (i : Input) :
    Le (callAt defs limit i v) (callAt defs (start + defs.length) i v) := by
  refine (callAt_le (Nat.le_add_left limit (start + defs.length)) i v).trans ?_
  refine callAt_le_of_answered (by omega) (fun u hu i => callAt_le_add hsmaller _ u hu _ i) ?_ i
  rw [Nat.add_assoc]
  exact answered_subset hsmaller (Nat.le_add_right _ _)

end Level

/-- **There are as many useful limits as definitions, on each level of the value**, and so `call`,
which has that many lookups, answers whatever `callAt` answers within any `limit`. -/
theorem callAt_le_call (limit : Nat) (i : Input) (v : Json) :
    Le (callAt defs limit i v) (call defs i v) := by
  induction hk : v.depth using Nat.strong_induction_on generalizing limit i v with
  | _ k ih =>
    subst hk
    -- what smaller values are answered, they are answered from here on
    have hsmaller : ∀ u : Json, u.depth < v.depth → ∀ limit i,
        Le (callAt defs limit i u) (callAt defs (defs.length * v.depth) i u) :=
      fun u hu limit i => (ih u.depth hu limit i u rfl).trans
        (callAt_le (Nat.mul_le_mul_left _ (Nat.succ_le_of_lt hu)) i u)
    exact callAt_le_level hsmaller limit i

/-- **A call is what its shape means, with calls for deferred definitions**: `call defs` solves the
recursive equation of `callWith`. -/
theorem call_eq (defs : Dict Input) (i : Input) (v : Json) : call defs i v =
    callWith (fun name u => (defs.get? name).bind fun d => call defs d u) i v := by
  refine Le.antisymm ?_ ?_
  · rw [call, callAt_eq]
    refine callWith_le fun name u _ => ?_
    cases hlimit : defs.length * (v.depth + 1) with
    | zero => exact fun r hr => by simp [lookup_zero] at hr
    | succ limit =>
      rw [lookup_succ]
      exact (Le.refl _).bind fun d => callAt_le_call limit d u
  · refine Le.trans ?_ (callAt_le_call (defs.length * (v.depth + 1) + 1) i v)
    rw [callAt_eq]
    refine callWith_le fun name u hu => ?_
    rw [lookup_succ]
    refine (Le.refl _).bind fun d => callAt_le (Nat.mul_le_mul_left _ ?_) d u
    rcases hu with rfl | hu <;> omega

end Input

end JsonShape
