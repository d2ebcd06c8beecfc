import JsonShape.Proofs.Input.Limit
import Mathlib.Data.List.Sort

/-!
# What is reported of the parts of a value

A record and a list check every part of a value, and report those that fail. What is reported of a
part is what its own input reports of it alone.

* `Input.memberReports` and `Input.itemReports`: the failing parts with their reports, by a check of
  each part alone.
* `callWith_object_eq_error` and `callWith_list_eq_error`: an object and an array are rejected with
  just these.
* `get?_memberReports` and `lookup_itemReports`: the report under a key or an index.
-/

namespace JsonShape

/-- The report of a rejected value. -/
def Checked.report? {α : Type} : Except Report α → Option Report
  | .ok _ => none
  | .error r => some r

namespace Checked

@[simp] theorem report?_ok {α : Type} (a : α) : report? (.ok a : Except Report α) = none := rfl

@[simp] theorem report?_error {α : Type} (r : Report) :
    report? (.error r : Except Report α) = some r := rfl

theorem bind_report?_eq_some {o : Outcome} {r : Report} :
    o.bind report? = some r ↔ o = some (.error r) := by
  rcases o with _ | _ | r'
  · simp
  · simp
  · simp

/-- A function of the accepted value changes no report. -/
theorem report?_map {α β : Type} (f : α → β) (c : Except Report α) :
    report? (c.map f) = report? c := by
  cases c <;> rfl

theorem memberFailures_eq (rs : List (String × Except Report (Option Json))) :
    memberFailures rs = rs.filterMap fun e => (report? e.2).map fun r => (e.1, r) := by
  induction rs with
  | nil => rfl
  | cons e rest ih =>
    obtain ⟨key, c⟩ := e
    cases c <;> simp [memberFailures, List.filterMap_cons, ih]

theorem failures_eq (i : Nat) (rs : List Checked) :
    failures i rs = (rs.zipIdx i).filterMap fun e => (report? e.1).map fun r => (e.2, r) := by
  induction rs generalizing i with
  | nil => rfl
  | cons c rest ih => cases c <;> simp [failures, List.filterMap_cons, ih]

end Checked

namespace Input

variable [Regex.Engine]

/-- What is reported of the declared member `m` of an object, by a check of the member alone: the
report of its own input or, where it is absent, that it is required. -/
def memberReport (check : Input → Json → Outcome) (ms : Dict Json) (m : Member Input) :
    Option Report :=
  match ms.get? m.key with
  | some x => (check m.value x).bind Checked.report?
  | none => if m.required then some .required else none

/-- The declared members that fail, in the order of their declarations, each with its
`memberReport`. -/
def memberReports (check : Input → Json → Outcome) (members : List (Member Input))
    (ms : Dict Json) : List (String × Report) :=
  (Member.distinct members).filterMap fun m => (memberReport check ms m).map fun r => (m.key, r)

/-- The items that fail, by ascending index, each with its report. -/
def itemReports (check : Json → Outcome) (xs : List Json) : List (Nat × Report) :=
  xs.zipIdx.filterMap fun e => ((check e.1).bind Checked.report?).map fun r => (e.2, r)

variable {deferred : String → Json → Outcome} {members : List (Member Input)} {item : Input}
  {ms : Dict Json} {xs : List Json} {c : Checked} {r : Report}

/-! ## Objects -/

/-- The result of `callMember` has what is reported of the member alone. -/
theorem report?_of_callMember {m : Member Input} {result : Except Report (Option Json)}
    (h : callMember deferred ms m = some result) :
    memberReport (callWith deferred) ms m = Checked.report? result := by
  unfold callMember at h
  unfold memberReport
  cases hx : ms.get? m.key with
  | none =>
    simp only [hx, Option.some.injEq] at h ⊢
    rw [← h, Checked.absent]
    split <;> rfl
  | some x =>
    simp only [hx, Option.map_eq_some_iff] at h ⊢
    obtain ⟨c, hc, rfl⟩ := h
    rw [hc, Option.bind_some, Checked.report?_map]

/-- **Of an object, the members are reported that fail alone.** -/
theorem report?_callWith_object (h : callWith deferred (.object members) (.object ms) = some c) :
    ∃ rs, c = Checked.ofMembers rs ∧
      Checked.memberFailures rs = memberReports (callWith deferred) members ms := by
  rw [callWith_object, Option.map_eq_some_iff] at h
  obtain ⟨rs, hrs, rfl⟩ := h
  refine ⟨rs, rfl, ?_⟩
  rw [Checked.memberFailures_eq, memberReports, eq_comm]
  refine filterMap_eq_of_forall₂ (mapM_eq_some_iff.1 hrs) fun m e hme => ?_
  obtain ⟨result, hresult, rfl⟩ := Option.map_eq_some_iff.1 hme
  rw [report?_of_callMember hresult]

/-- **An object is rejected if each declared member has an answer and some fail**, and then with
just those members that fail (`memberReports`), in the order of their declarations. -/
theorem callWith_object_eq_error :
    callWith deferred (.object members) (.object ms) = some (.error r) ↔
      Answers deferred (.object members) (.object ms) ∧
        memberReports (callWith deferred) members ms ≠ [] ∧
          r = .object (memberReports (callWith deferred) members ms) := by
  rw [Answers]
  cases hc : callWith deferred (.object members) (.object ms) with
  | none => simp
  | some c =>
    obtain ⟨rs, rfl, hreports⟩ := report?_callWith_object hc
    rw [Option.some.injEq, Checked.ofMembers_eq_error, hreports]
    simp

/-! ## Arrays -/

/-- **Of an array, the items are reported that fail alone.** -/
theorem report?_callWith_list (h : callWith deferred (.list item) (.array xs) = some c) :
    ∃ rs, c = Checked.ofItems rs ∧
      Checked.failures 0 rs = itemReports (callWith deferred item) xs := by
  obtain ⟨rs, hrs, rfl⟩ := Option.map_eq_some_iff.1 h
  refine ⟨rs, rfl, ?_⟩
  rw [Checked.failures_eq, itemReports]
  generalize 0 = i
  have hall := mapM_eq_some_iff.1 hrs
  clear h hrs
  induction hall generalizing i with
  | nil => rfl
  | cons hxc _ ih =>
    rw [List.zipIdx_cons, List.zipIdx_cons, List.filterMap_cons, List.filterMap_cons, ih, hxc,
      Option.bind_some]

/-- **An array is rejected if each item has an answer and some fail**, and then with just those
items that fail (`itemReports`), by ascending index. -/
theorem callWith_list_eq_error :
    callWith deferred (.list item) (.array xs) = some (.error r) ↔
      Answers deferred (.list item) (.array xs) ∧
        itemReports (callWith deferred item) xs ≠ [] ∧
          r = .list (itemReports (callWith deferred item) xs) := by
  rw [Answers]
  cases hc : callWith deferred (.list item) (.array xs) with
  | none => simp
  | some c =>
    obtain ⟨rs, rfl, hreports⟩ := report?_callWith_list hc
    rw [Option.some.injEq, Checked.ofItems_eq_error, hreports]
    simp

/-! ## Single reports -/

variable {check : Input → Json → Outcome}

theorem mem_memberReports {e : String × Report} : e ∈ memberReports check members ms ↔
    ∃ m ∈ Member.distinct members, m.key = e.1 ∧ memberReport check ms m = some e.2 := by
  simp only [memberReports, List.mem_filterMap, Option.map_eq_some_iff, Prod.ext_iff]
  constructor
  · rintro ⟨m, hm, r, hr, hkey, rfl⟩
    exact ⟨m, hm, hkey, hr⟩
  · rintro ⟨m, hm, hkey, hr⟩
    exact ⟨m, hm, _, hr, hkey, rfl⟩

/-- Members are reported in the order of their declarations, each once. -/
theorem nodup_names_memberReports : (Dict.names (memberReports check members ms)).Nodup :=
  (map_fst_filterMap_sublist _ _ _).nodup (Member.nodup_keys_distinct members)

/-- What `memberReports` has under `k` depends on what stands under `k` alone. -/
theorem get?_memberReports_congr {ms' : Dict Json} {k : String} (h : ms.get? k = ms'.get? k) :
    Dict.get? (memberReports check members ms) k =
      Dict.get? (memberReports check members ms') k := by
  refine Dict.get?_filterMap_congr fun m _ hm => ?_
  subst hm
  rw [memberReport, memberReport, h]

/-- The report under the key of a declaration is that of the member alone. -/
theorem get?_memberReports {m : Member Input} (hm : m ∈ Member.distinct members) :
    Dict.get? (memberReports check members ms) m.key = memberReport check ms m := by
  refine Option.ext fun r => ?_
  rw [Dict.get?_eq_some_iff nodup_names_memberReports, mem_memberReports]
  constructor
  · rintro ⟨n, hn, hkey, hr⟩
    have hsame : n = m := List.inj_on_of_nodup_map (Member.nodup_keys_distinct members) hn hm hkey
    exact hsame ▸ hr
  · exact fun hr => ⟨m, hm, rfl, hr⟩

omit [Regex.Engine] in
theorem mem_itemReports {check : Json → Outcome} {e : Nat × Report} : e ∈ itemReports check xs ↔
    ∃ x, xs[e.1]? = some x ∧ check x = some (.error e.2) := by
  obtain ⟨n, r⟩ := e
  simp only [itemReports, List.mem_filterMap, Option.map_eq_some_iff, Prod.mk.injEq, Prod.exists,
    List.mem_zipIdx_iff_getElem?, Checked.bind_report?_eq_some]
  constructor
  · rintro ⟨x, n, hx, r, hr, rfl, rfl⟩
    exact ⟨x, hx, hr⟩
  · rintro ⟨x, hx, hr⟩
    exact ⟨x, n, hx, r, hr, rfl, rfl⟩

omit [Regex.Engine] in
/-- Items are reported by ascending index. -/
theorem pairwise_itemReports (check : Json → Outcome) (xs : List Json) :
    ((itemReports check xs).map Prod.fst).Pairwise (· < ·) := by
  refine List.Pairwise.sublist (map_fst_filterMap_sublist _ _ _) ?_
  rw [List.zipIdx_map_snd]
  exact List.pairwise_lt_range'

omit [Regex.Engine] in
/-- The report under an index is that of the item alone. -/
theorem lookup_itemReports (check : Json → Outcome) (xs : List Json) (n : Nat) :
    (itemReports check xs).lookup n = xs[n]?.bind fun x => (check x).bind Checked.report? := by
  refine Option.ext fun r => ?_
  rw [lookup_eq_some_iff ((pairwise_itemReports check xs).imp Nat.ne_of_lt), mem_itemReports,
    Option.bind_eq_some_iff]
  simp only [Checked.bind_report?_eq_some]

end Input

end JsonShape
