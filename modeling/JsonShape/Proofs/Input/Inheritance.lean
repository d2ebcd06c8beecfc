import JsonShape.Proofs.Input.Places
import JsonShape.Proofs.Report.Combined
import JsonShape.Regex.Pattern

/-!
# Records over a chain of ancestors

A record that extends another one checks a value against the whole chain of its ancestors, level
after level inside one another. What comes out is told by what each level makes of the value by its
own members alone (`call_of_lineage`): the value is accepted if every level accepts it, and then the
accepted objects are written over one another from the root on; otherwise the reports of the levels
that reject it are put together in the same order.

* `InputStruct.Lineage`: records that extend one another, from the root to the last one.
* `call_of_root` and `call_of_extend`: what one more level changes, from which each part of the
  result follows by induction on the chain.
-/

namespace JsonShape

/-- The value of the name `k` in several objects `ds` that are written over one another: that of the
last one that has it. -/
theorem Dict.get?_ofList_flatten {α : Type} {ds : List (Dict α)} (h : ∀ d ∈ ds, d.names.Nodup)
    (k : String) : (ofList ds.flatten).get? k = ds.reverse.findSome? fun d => d.get? k := by
  induction ds using List.reverseRecOn with
  | nil => rfl
  | append_singleton ds d ih =>
    rw [List.forall_mem_append, List.forall_mem_singleton] at h
    rw [List.flatten_append, List.flatten_singleton, ofList_append, get?_extend_of_nodup h.2,
      ih h.1, List.reverse_append, List.reverse_singleton, List.singleton_append,
      List.findSome?_cons]
    cases d.get? k <;> rfl

namespace InputStruct

open Input (call call_eq callWith_merge)

variable [Regex.Engine] {defs : Dict Input} {levels : List InputStruct} {parent s : InputStruct}
  {name : String}
  {members : List (Member Input)} {v w : Json} {r : Report}

/-! ## Chains of records -/

/-- `Lineage levels s` says that the records `levels` extend one another, from the root of the chain
to its last record `s`. -/
inductive Lineage : List InputStruct → InputStruct → Prop
  | root {name : String} {members : List (Member Input)} {s : InputStruct}
      (h : build name none members = .ok s) : Lineage [s] s
  | extend {levels : List InputStruct} {parent s : InputStruct} {name : String}
      {members : List (Member Input)} (hparent : Lineage levels parent)
      (h : build name (some parent) members = .ok s) : Lineage (levels ++ [s]) s

/-- What each record of `levels` answers for `v` by its own members alone. -/
def ownAnswers (defs : Dict Input) (levels : List InputStruct) (v : Json) : List Outcome :=
  levels.map fun l => call defs l.own v

/-- The reports among some `answers`. -/
def reports (answers : List Outcome) : List Report := answers.filterMap (·.bind Checked.report?)

theorem ownAnswers_singleton (defs : Dict Input) (s : InputStruct) (v : Json) :
    ownAnswers defs [s] v = [call defs s.own v] := rfl

theorem ownAnswers_append_singleton (defs : Dict Input) (levels : List InputStruct)
    (s : InputStruct) (v : Json) :
    ownAnswers defs (levels ++ [s]) v = ownAnswers defs levels v ++ [call defs s.own v] :=
  List.map_append

/-- What a record `s` is built of: its own `members`, over the record `parent` that it extends. -/
theorem parts_of_build {parent : Option InputStruct} (h : build name parent members = .ok s) :
    s.own = .object members ∧
      s.inherited = parent.elim s.own fun parent => .merge parent.input s.own := by
  rw [build] at h
  split at h
  · cases h
  · rw [← Except.ok.inj h]
    cases parent <;> exact ⟨rfl, rfl⟩

/-- A record checks what it inherits. -/
theorem call_input (defs : Dict Input) (s : InputStruct) (v : Json) :
    call defs s.input v = call defs s.inherited v := by
  rw [call_eq, call_eq]
  rfl

/-- The root of a chain checks its own members, `s.own`. -/
theorem call_of_root (h : build name none members = .ok s) (v : Json) :
    call defs s.input v = call defs s.own v := by
  rw [call_input, (parts_of_build h).2, Option.elim_none]

/-- A record `s` that extends `parent` checks what `parent` does and its own members. -/
theorem call_of_extend (h : build name (some parent) members = .ok s) (v : Json) :
    call defs s.input v = (call defs parent.input v).bind fun p =>
      (call defs s.own v).bind fun c => some (Checked.merge p c) := by
  rw [call_input, (parts_of_build h).2, Option.elim_some, call_eq, callWith_merge, ← call_eq,
    ← call_eq]

/-- What the own members of `s` accept is an object. -/
theorem object_of_own {parent : Option InputStruct} (h : build name parent members = .ok s)
    (hw : call defs s.own v = some (.ok w)) :
    ∃ ms : Dict Json, w = .object ms ∧ ms.names.Nodup := by
  rw [(parts_of_build h).1, call_eq] at hw
  obtain ⟨_, ms, -, rfl, hsublist, -⟩ := Input.callWith_object_eq_ok.1 hw
  exact ⟨ms, rfl, hsublist.nodup (Member.nodup_keys_distinct members)⟩

/-! ## From level to level -/

/-- What holds of merged answers if it does of both (`hP`), holds of the answer if it does of those
of every level. -/
theorem answer_iff {P : Outcome → Prop} (h : Lineage levels s)
    (hP : ∀ p c : Outcome, P (p.bind fun p => c.bind fun c => some (Checked.merge p c)) ↔ P p ∧ P c)
    (v : Json) :
    P (call defs s.input v) ↔ ∀ o ∈ ownAnswers defs levels v, P o := by
  induction h with
  | root h =>
    rw [call_of_root h, ownAnswers_singleton, List.forall_mem_singleton]
  | extend _ h ih =>
    rw [call_of_extend h, hP, ownAnswers_append_singleton, List.forall_mem_append,
      List.forall_mem_singleton, ih]

/-- `s` has an answer for `v` if every level has one. -/
theorem isSome_iff (h : Lineage levels s) (v : Json) :
    (call defs s.input v).isSome ↔ ∀ o ∈ ownAnswers defs levels v, o.isSome :=
  answer_iff (P := fun o => o.isSome) h (fun p c => by cases p <;> cases c <;> simp) v

/-- `s` accepts `v` if every level accepts it. -/
theorem accepts_iff (h : Lineage levels s) (v : Json) :
    (∃ w, call defs s.input v = some (.ok w)) ↔
      ∀ o ∈ ownAnswers defs levels v, ∃ w, o = some (.ok w) := by
  refine answer_iff (P := fun o => ∃ w, o = some (.ok w)) h (fun p c => ?_) v
  rcases p with _ | p | p <;> rcases c with _ | c | c <;> simp [Checked.merge]

/-- Accepted objects `ms` are written over one another, from the root on. -/
theorem objects_of_lineage (h : Lineage levels s) (hw : call defs s.input v = some (.ok w)) :
    ∃ ms : List (Dict Json), ownAnswers defs levels v = ms.map (fun m => some (.ok (.object m))) ∧
      (∀ m ∈ ms, m.names.Nodup) ∧ w = .object (Dict.ofList ms.flatten) := by
  induction h generalizing w with
  | root h =>
    rw [call_of_root h] at hw
    obtain ⟨m, rfl, hm⟩ := object_of_own h hw
    refine ⟨[m], congrArg ([·]) hw, List.forall_mem_singleton.2 hm, ?_⟩
    rw [List.flatten_singleton, Dict.ofList_of_nodup hm]
  | extend _ h ih =>
    rw [call_of_extend h] at hw
    obtain ⟨p, hp, hw⟩ := Option.bind_eq_some_iff.1 hw
    obtain ⟨c, hc, hmerge⟩ := Option.bind_eq_some_iff.1 hw
    obtain ⟨p, c, rfl, rfl, rfl⟩ := Checked.merge_eq_ok.1 (Option.some.inj hmerge)
    obtain ⟨ms, hanswers, hms, rfl⟩ := ih hp
    obtain ⟨m, rfl, hm⟩ := object_of_own h hc
    refine ⟨ms ++ [m], ?_, ?_, ?_⟩
    · rw [ownAnswers_append_singleton, hanswers, hc, List.map_append, List.map_singleton]
    · exact List.forall_mem_append.2 ⟨hms, List.forall_mem_singleton.2 hm⟩
    · rw [List.flatten_append, List.flatten_singleton, Dict.ofList_append]
      rfl

omit [Regex.Engine] in
theorem reports_append_singleton (answers : List Outcome) (o : Outcome) :
    reports (answers ++ [o]) = reports answers ++ (o.bind Checked.report?).toList := by
  rw [reports, List.filterMap_append]
  cases h : o.bind Checked.report? <;> simp [reports, h]

omit [Regex.Engine] in
/-- Where all `answers` accept, nothing is reported. -/
theorem reports_of_accepted {answers : List Outcome} (h : ∀ o ∈ answers, ∃ w, o = some (.ok w)) :
    reports answers = [] := by
  rw [reports, List.filterMap_eq_nil_iff]
  intro o ho
  obtain ⟨w, rfl⟩ := h o ho
  rfl

/-- The report `r` of a chain has the leaves of the reports of its levels, from the root on. -/
theorem leaves_of_lineage (h : Lineage levels s) (hr : call defs s.input v = some (.error r)) :
    r.leaves = (reports (ownAnswers defs levels v)).flatMap Report.leaves := by
  induction h generalizing r with
  | root h =>
    rw [call_of_root h] at hr
    rw [ownAnswers_singleton, hr]
    exact (List.append_nil _).symm
  | extend hparent h ih =>
    rw [call_of_extend h] at hr
    obtain ⟨p, hp, hr⟩ := Option.bind_eq_some_iff.1 hr
    obtain ⟨c, hc, hmerge⟩ := Option.bind_eq_some_iff.1 hr
    rw [ownAnswers_append_singleton, reports_append_singleton, List.flatMap_append, hc]
    rcases Checked.merge_eq_error.1 (Option.some.inj hmerge) with
      ⟨rfl, w, rfl⟩ | ⟨rfl, w, rfl⟩ | ⟨p, c, rfl, rfl, rfl⟩
    · -- only ancestors reject
      exact (ih hp).trans (List.append_nil _).symm
    · -- only the last record rejects
      rw [reports_of_accepted ((accepts_iff hparent v).1 ⟨w, hp⟩)]
      exact (List.append_nil _).symm
    · rw [Report.leaves_merged, ih hp]
      exact congrArg (_ ++ ·) (List.append_nil _).symm

/-! ## The whole chain -/

/-- **A record checks a value level by level.** Let `s` be the last record of `levels`, and
`ownAnswers` what each level answers for `v` by its own members. There is an answer if every level
of the chain has one, and `v` is accepted if every level accepts it. Then the accepted objects `ms`
are merged from the root on: each key stands where it first comes, with the value of the last level
that has it. Otherwise the reports of the levels that reject `v` are merged from the root on, by
`Report.combined`: each path stands where it first comes, with the messages of all levels, each
where it first comes. -/
theorem call_of_lineage (h : Lineage levels s) (defs : Dict Input) (v : Json) :
    ((call defs s.input v).isSome ↔ ∀ o ∈ ownAnswers defs levels v, o.isSome) ∧
    ((∃ w, call defs s.input v = some (.ok w)) ↔
      ∀ o ∈ ownAnswers defs levels v, ∃ w, o = some (.ok w)) ∧
    (∀ w, call defs s.input v = some (.ok w) → ∃ (ms : List (Dict Json)) (merged : Dict Json),
      ownAnswers defs levels v = ms.map (fun m => some (.ok (.object m))) ∧ w = .object merged ∧
        merged.names = (ms.flatMap Dict.names).eraseDups ∧
        ∀ k, merged.get? k = ms.reverse.findSome? fun m => m.get? k) ∧
    ∀ r, call defs s.input v = some (.error r) →
      r.pathHash =
        Report.combined ((reports (ownAnswers defs levels v)).map Report.pathHash) := by
  refine ⟨isSome_iff h v, accepts_iff h v, fun w hw => ?_, fun r hr => ?_⟩
  · obtain ⟨ms, hanswers, hms, rfl⟩ := objects_of_lineage h hw
    refine ⟨ms, _, hanswers, rfl, ?_, Dict.get?_ofList_flatten hms⟩
    rw [Dict.names_ofList, Dict.names, List.map_flatten]
    rfl
  · refine Report.pathHash_of_leaves (Input.about_of_call hr).formed ?_ (leaves_of_lineage h hr)
    intro p hp
    obtain ⟨o, ho, hop⟩ := List.mem_filterMap.1 hp
    obtain ⟨l, -, rfl⟩ := List.mem_map.1 ho
    exact (Input.about_of_call (Checked.bind_report?_eq_some.1 hop)).formed

end InputStruct

namespace InputStruct

open Input (call call_eq callWith_merge)

attribute [local instance] Regex.Engine.standard

/-- Three records that declare a key with three types. The first two reject the value. -/
theorem call_of_lineage_item :
    let item : List (Member Input) := [⟨"id", .integer, true, none⟩]
    let named : List (Member Input) :=
      [⟨"name", .text none, true, none⟩, ⟨"id", .number, true, none⟩]
    let coded : List (Member Input) := [⟨"id", .text none, true, none⟩]
    let v : Json := .object [("name", .bool true), ("id", .string "a7")]
    ∃ first second third r, build "Item" none item = .ok first ∧
      build "Named" (some first) named = .ok second ∧
      build "Coded" (some second) coded = .ok third ∧
      call [] third.input v = some (.error r) ∧
      r.pathHash = [(".id", ["must be an integer", "must be a number"]),
        (".name", ["must be a string"])] := by
  intro item named coded v
  have hitem := @Lineage.root _ "Item" item _ rfl
  have hnamed := @Lineage.extend _ _ _ _ "Named" named hitem rfl
  have hcoded := @Lineage.extend _ _ _ _ "Coded" coded hnamed rfl
  refine ⟨_, _, _, _, rfl, rfl, rfl, rfl, ?_⟩
  exact ((call_of_lineage hcoded [] v).2.2.2 _ rfl).trans (by decide +kernel)

end InputStruct

end JsonShape
