import JsonShape.Proofs.Input.Calls
import JsonShape.Proofs.Json.Projection
import JsonShape.Regex.Pattern

/-!
# Checking invents nothing

What a value is accepted as is a projection of the value: members that are not declared are dropped,
and whatever is left stood in the value at the same place (`Input.projects_of_call`). The one
exception are functions, so the inputs here are *unmapped* throughout.

* `projects_of_asks`: the step of one shape, given the same of all that it asks for.
* `projects_of_callAt`: the same within an input, by induction on the number of lookups and, between
  them, on the shape.
* `Json.Projects.test_eq`: tests that every container passes do not tell a value from its
  projections.
-/

namespace JsonShape

/-- A `test` that every container passes does not tell a value `v` from its projections `w`. -/
theorem Json.Projects.test_eq {test : Json → Bool} (htest : ∀ u : Json, u.isContainer → test u)
    {v w : Json} (h : v.Projects w) : test w = test v := by
  cases hv : v.isContainer with
  | true => rw [htest v hv, htest w (h.isContainer_eq.trans hv)]
  | false => rw [h.eq_of_scalar hv]

namespace Input

variable [Regex.Engine]

/-- Whether a node changes no value by a function, as `mapped` does. -/
def isUnmapped : Input → Bool
  | .mapped _ _ => false
  | _ => true

variable {defs : Dict Input} {root i : Input} {v w : Json} {deferred : String → Json → Outcome}

/-! ## Tests -/

theorem fits_of_isContainer {regex : Regex} (h : v.isContainer) : fits regex v := by
  cases v with
  | string s => cases h
  | _ => rfl

omit [Regex.Engine] in
theorem liesIn_of_isContainer {interval : Interval} (h : v.isContainer) : liesIn interval v := by
  cases v with
  | number n => cases h
  | _ => rfl

omit [Regex.Engine] in
theorem isDivided_of_isContainer {factor : Binary64} (h : v.isContainer) : isDivided factor v := by
  cases v with
  | number n => cases h
  | _ => rfl

/-! ## Shapes -/

omit [Regex.Engine] in
theorem projects_of_check {accepted : Bool} {message : String}
    (h : some (Checked.check accepted message v) = some (.ok w)) : v.Projects w := by
  obtain ⟨-, rfl⟩ := Checked.check_eq_ok.1 (Option.some.inj h)
  exact .refl _

/-- **The shape `i` accepts `v` as one of its projections**, if that is so of all that it asks for
(`Asks`). -/
theorem projects_of_asks (hunmapped : i.isUnmapped) (hi : ∀ name, i ≠ .defer name)
    (h : ∀ j u, Asks (j, u) (i, v) → ∀ y, callWith deferred j u = some (.ok y) → u.Projects y)
    (hw : callWith deferred i v = some (.ok w)) : v.Projects w := by
  cases i with
  | text _ | number | integer | boolean | null => exact projects_of_check hw
  | any =>
    obtain rfl := Except.ok.inj (Option.some.inj hw)
    exact .refl v
  | object members =>
    obtain ⟨ms, ws, rfl, rfl, hsub, hread⟩ := callWith_object_eq_ok.1 hw
    have hnodup : ws.names.Nodup := hsub.nodup (Member.nodup_keys_distinct members)
    refine Json.projects_object fun e he => ?_
    obtain ⟨key, y⟩ := e
    have hkey : key ∈ Member.keys (Member.distinct members) :=
      hsub.subset (List.mem_map_of_mem (f := Prod.fst) he)
    obtain ⟨m, hm, rfl⟩ := List.mem_map.1 hkey
    have hy : ws.get? m.key = some y := (Dict.get?_eq_some_iff hnodup).2 he
    rcases callMember_eq_ok.1 (hread m hm) with ⟨-, -, hnone⟩ | ⟨x, y', hx, hcall, hy'⟩
    · simp [hnone] at hy
    · obtain rfl := Option.some.inj (hy.symm.trans hy')
      exact ⟨x, Dict.mem_of_get? hx, h _ _ (.member hm hx) y hcall⟩
  | merge parent child =>
    obtain ⟨p, c, hp, hc, rfl⟩ := callWith_merge_eq_ok.1 hw
    have hparent : v.Projects p := h _ _ (.same (.head _)) p hp
    have hchild : v.Projects c := h _ _ (.same (.tail _ (.head _))) c hc
    exact hparent.merge hchild
  | list item =>
    obtain ⟨xs, ys, rfl, rfl, hitems⟩ := callWith_list_eq_ok.1 hw
    have hasked := (List.forall₂_and_left xs ys).2 ⟨fun x hx => hx, hitems⟩
    exact Json.projects_array (hasked.imp fun x y ⟨hx, hxy⟩ => h item x (.item hx) y hxy)
  | either left right =>
    rcases callWith_either_eq_ok hw with hw | hw
    · exact h _ _ (.same (.head _)) w hw
    · exact h _ _ (.same (.tail _ (.head _))) w hw
  | optional inner =>
    rcases callWith_optional_eq_ok.1 hw with ⟨rfl, rfl⟩ | ⟨-, hw⟩
    · exact .refl _
    · exact h _ _ (.same (.head _)) w hw
  | enum inner values => exact h _ _ (.same (.head _)) w (callWith_enum_eq_ok.1 hw).1
  | pattern inner regex => exact h _ _ (.same (.head _)) w (callWith_pattern_eq_ok.1 hw).1
  | inRange inner interval => exact h _ _ (.same (.head _)) w (callWith_inRange_eq_ok.1 hw).1
  | multipleOf inner factor => exact h _ _ (.same (.head _)) w (callWith_multipleOf_eq_ok.1 hw).1
  | mapped _ _ => exact absurd hunmapped Bool.false_ne_true
  | described inner _ | referenced inner _ =>
    have hinner := h inner v (.same (.head _))
    exact hinner w hw
  | defer name => exact absurd rfl (hi name)

/-- The same within `root`, if it is so of `deferred` definitions, by induction on the shape. -/
theorem projects_of_callWith (hunmapped : ∀ i, Within defs root i → i.isUnmapped)
    (hdeferred : ∀ name, Within defs root (.defer name) → ∀ v w,
      deferred name v = some (.ok w) → v.Projects w)
    (hi : Within defs root i) (h : callWith deferred i v = some (.ok w)) : v.Projects w := by
  induction i using of_children generalizing v w with
  | _ i ih =>
    by_cases hlookup : ∃ name, i = .defer name
    · obtain ⟨name, rfl⟩ := hlookup
      exact hdeferred name hi v w h
    · refine projects_of_asks (hunmapped i hi) (not_exists.1 hlookup) (fun j u hask y hy => ?_) h
      exact ih j hask.mem_children (hi.child hask.mem_children) hy

/-! ## Lookups -/

/-- The same, whatever the `limit` on lookups, by induction on it. -/
theorem projects_of_callAt (hunmapped : ∀ i, Within defs root i → i.isUnmapped) {limit : Nat}
    (hi : Within defs root i) (h : callAt defs limit i v = some (.ok w)) : v.Projects w := by
  induction limit generalizing i v w with
  | zero =>
    refine projects_of_callWith hunmapped (fun name _ v w h => ?_) hi (callAt_eq 0 i v ▸ h)
    simp [lookup_zero] at h
  | succ limit ih =>
    refine projects_of_callWith hunmapped (fun name hname v w h => ?_) hi (callAt_eq _ i v ▸ h)
    rw [lookup_succ] at h
    obtain ⟨j, hj, h⟩ := Option.bind_eq_some_iff.1 h
    exact ih (hname.defer hj) h

/-- **Checking invents nothing**: whatever the shapes, definitions and the value `v` are, `root`
accepts `v` as one of its projections `w` (`Json.Projects`), if no function changes values anywhere
within `root` (`isUnmapped`). -/
theorem projects_of_call (defs : Dict Input) (root : Input)
    (hunmapped : ∀ i, Within defs root i → i.isUnmapped) (v w : Json)
    (h : call defs root v = some (.ok w)) : v.Projects w :=
  projects_of_callAt hunmapped .root h

end Input

namespace Input

attribute [local instance] Regex.Engine.standard

/-- Members that extend people and lead teams of members. What the records do not declare is
dropped, at every depth. -/
theorem projects_of_call_team :
    let person : Input := .object [⟨"name", .text none, true, none⟩]
    let own : Input := .object [⟨"age", .either .integer .null, false, none⟩,
      ⟨"team", .optional (.list (.defer "member")), false, none⟩]
    let defs : Dict Input := [("member", .referenced (.merge person own) "Member")]
    let ada : Json := .object [("shoes", .number (.int 38)), ("name", .string "Ada")]
    let v : Json := .object [("team", .array [ada]), ("age", .null), ("name", .string "Bea")]
    let w : Json := .object [("name", .string "Bea"), ("age", .null),
      ("team", .array [.object [("name", .string "Ada")]])]
    call defs (.defer "member") v = some (.ok w) ∧ v.Projects w := by
  intro person own defs ada v w
  let inside : List Input := [.defer "member", .referenced (.merge person own) "Member",
    .merge person own, person, .text none, own, .either .integer .null, .integer, .null,
    .optional (.list (.defer "member")), .list (.defer "member")]
  have hparts : ∀ i ∈ inside, ∀ j ∈ i.children, j ∈ inside := by
    simp [inside, person, own, children]
  have hdefs : ∀ e ∈ defs, e.2 ∈ inside := by simp [defs, inside]
  have hunmapped : ∀ i ∈ inside, i.isUnmapped := by simp [inside, person, own, isUnmapped]
  have hcall : call defs (.defer "member") v = some (.ok w) := rfl
  exact ⟨hcall, projects_of_call defs (.defer "member") (fun i hi =>
    hunmapped i (hi.mem_of_closed (.head _) hparts hdefs)) v w hcall⟩

end Input

end JsonShape
