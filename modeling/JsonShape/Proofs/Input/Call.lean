import JsonShape.Input.Call
import JsonShape.Proofs.Induction
import JsonShape.Proofs.Members

/-!
# When values are accepted

Checking a value against a shape answers nothing where definitions lead back to themselves, and
otherwise accepts the value or reports it. Both questions are answered shape by shape.

* `Input.Accepts` and `Input.Answers`, given the meaning of deferred definitions.
* `accepts_object`, `accepts_list` and the like: a value is accepted if its parts are.
* `callWith_object_eq_ok`, `callWith_list_eq_ok` and the like: what it is accepted as, from what its
  parts are.
* `answers_object`, `answers_list`, `answers_either`: when there is an answer.
-/

namespace JsonShape

namespace Input

variable [Regex.Engine] {deferred : String → Json → Outcome} {v w : Json}

/-- `i` accepts `v`, where `deferred` says what lookups mean. -/
def Accepts (deferred : String → Json → Outcome) (i : Input) (v : Json) : Prop :=
  ∃ w, callWith deferred i v = some (.ok w)

/-- There is an answer for `v`, be it a result or a report. -/
def Answers (deferred : String → Json → Outcome) (i : Input) (v : Json) : Prop :=
  (callWith deferred i v).isSome

/-- A value that is answered is accepted or reported. -/
theorem Answers.cases {i : Input} (h : Answers deferred i v) :
    Accepts deferred i v ∨ ∃ report, callWith deferred i v = some (.error report) := by
  obtain ⟨r, hr⟩ := Option.isSome_iff_exists.1 h
  cases r with
  | ok w => exact Or.inl ⟨w, hr⟩
  | error report => exact Or.inr ⟨report, hr⟩

/-! ## Basic types -/

omit [Regex.Engine] in
theorem exists_check {accepted : Bool} {message : String} :
    (∃ w, some (Checked.check accepted message v) = some (.ok w)) ↔ accepted := by
  simp [Checked.check_eq_ok]

theorem accepts_text {format : Option String} :
    Accepts deferred (.text format) v ↔ v.isString :=
  exists_check

theorem accepts_number : Accepts deferred .number v ↔ v.isNumber :=
  exists_check

theorem accepts_integer : Accepts deferred .integer v ↔ v.isInteger :=
  exists_check

theorem accepts_boolean : Accepts deferred .boolean v ↔ v.isBoolean :=
  exists_check

theorem accepts_null : Accepts deferred .null v ↔ v.isNull :=
  exists_check

theorem accepts_any : Accepts deferred .any v := ⟨v, rfl⟩

/-! ## Records -/

/-- What the object `ms` has for the declared member `m`: `none` where it is absent and may be. -/
def callMember (deferred : String → Json → Outcome) (ms : Dict Json) (m : Member Input) :
    Option (Except Report (Option Json)) :=
  match ms.get? m.key with
  | some v => (callWith deferred m.value v).map (Except.map some)
  | none => some (Checked.absent m.required)

/-- The declaration of a member with its result. -/
def withResult (deferred : String → Json → Outcome) (ms : Dict Json) (m : Member Input) :
    Member (Option (Except Report (Option Json))) :=
  ⟨m.key, callMember deferred ms m, m.required, m.description⟩

theorem callMembers_eq (members : List (Member Input)) (ms : Dict Json) :
    callMembers deferred members ms = members.map (withResult deferred ms) := by
  induction members with
  | nil => rfl
  | cons m rest ih =>
    obtain ⟨key, value, required, description⟩ := m
    exact congrArg _ ih

/-- An object is checked member by member, each by its declaration in force, which is the last one
of its key (`Member.distinct`). -/
theorem callWith_object (members : List (Member Input)) (ms : Dict Json) :
    callWith deferred (.object members) (.object ms) =
      ((Member.distinct members).mapM fun m =>
        (callMember deferred ms m).map fun r => (m.key, r)).map Checked.ofMembers := by
  have hkey : ∀ m, (withResult deferred ms m).key = m.key := fun _ => rfl
  have hcall : callWith deferred (.object members) (.object ms) =
      (List.mapM (fun m : Member (Option (Except Report (Option Json))) =>
        m.value.map fun r => (m.key, r)) (Member.distinct (callMembers deferred members ms))).bind
          fun rs => some (Checked.ofMembers rs) := rfl
  rw [hcall, callMembers_eq, Member.distinct_map_of_key hkey, List.mapM_map, Option.map_eq_bind]
  rfl

omit [Regex.Engine] in
/-- A list of results is there if every result is. -/
theorem mapM_isSome {α β : Type} {f : α → Option β} {xs : List α} :
    (xs.mapM f).isSome ↔ ∀ x ∈ xs, (f x).isSome := by
  induction xs with
  | nil => simp
  | cons x rest ih =>
    rw [List.mapM_cons, List.forall_mem_cons, ← ih]
    cases f x <;> cases rest.mapM f <;> simp

omit [Regex.Engine] in
/-- All results in a list are of a kind if every single one is. -/
theorem exists_mapM {α β : Type} {f : α → Option β} {p : β → Prop} {xs : List α} :
    (∃ ys, xs.mapM f = some ys ∧ ∀ y ∈ ys, p y) ↔ ∀ x ∈ xs, ∃ y, f x = some y ∧ p y := by
  induction xs with
  | nil => simp
  | cons x rest ih =>
    rw [List.forall_mem_cons, ← ih]
    simp only [List.mapM_cons, Option.pure_def, Option.bind_eq_bind, Option.bind_eq_some_iff,
      Option.some.injEq]
    constructor
    · rintro ⟨_, ⟨y, hy, ys, hys, rfl⟩, h⟩
      exact ⟨⟨y, hy, h y (.head _)⟩, ys, hys, fun z hz => h z (.tail _ hz)⟩
    · rintro ⟨⟨y, hy, h⟩, ys, hys, hall⟩
      exact ⟨y :: ys, ⟨y, hy, ys, hys, rfl⟩, List.forall_mem_cons.2 ⟨h, hall⟩⟩

theorem exists_callMember {ms : Dict Json} {m : Member Input} :
    (∃ r, (callMember deferred ms m).map (fun r => (m.key, r)) = some r ∧ ∃ v, r.2 = .ok v) ↔
      (m.required → Dict.contains ms m.key) ∧
        ∀ x, Dict.get? ms m.key = some x → Accepts deferred m.value x := by
  unfold callMember Dict.contains
  cases ms.get? m.key with
  | none => cases hr : m.required <;> simp [Checked.absent]
  | some x =>
    simp only [Option.map_map, Option.map_eq_some_iff, Function.comp_apply, Option.isSome_some,
      implies_true, true_and, Option.some.injEq, forall_eq', Accepts]
    constructor
    · rintro ⟨_, ⟨r, hr, rfl⟩, w, hw⟩
      cases r with
      | error e => simp [Except.map] at hw
      | ok w => exact ⟨w, hr⟩
    · rintro ⟨w, hw⟩
      exact ⟨_, ⟨_, hw, rfl⟩, some w, rfl⟩

/-- **An object is accepted if the required members are there and all that are there fit**: of
`members`, the declarations in force count (`Member.distinct`), and other members of `v` are passed
over. -/
theorem accepts_object {members : List (Member Input)} :
    Accepts deferred (.object members) v ↔ ∃ ms, v = .object ms ∧ ∀ m ∈ Member.distinct members,
      (m.required → Dict.contains ms m.key) ∧
        ∀ x, Dict.get? ms m.key = some x → Accepts deferred m.value x := by
  cases v with
  | object ms =>
    simp only [Json.object.injEq, exists_eq_left', ← exists_callMember, ← exists_mapM]
    rw [Accepts, callWith_object]
    simp only [Option.map_eq_some_iff, Checked.ofMembers_eq_ok]
    constructor
    · rintro ⟨w, rs, hrs, hok, -⟩
      exact ⟨rs, hrs, hok⟩
    · rintro ⟨rs, hrs, hok⟩
      exact ⟨_, rs, hrs, hok, rfl⟩
  | _ => exact iff_of_false (fun ⟨_, h⟩ => by cases h) fun ⟨_, h, _⟩ => by cases h

/-- A member is left out where it is absent and may be, and is kept as its shape accepts it. -/
theorem callMember_eq_ok {ms : Dict Json} {m : Member Input} {o : Option Json} :
    callMember deferred ms m = some (.ok o) ↔
      (ms.get? m.key = none ∧ m.required = false ∧ o = none) ∨
        ∃ x y, ms.get? m.key = some x ∧ callWith deferred m.value x = some (.ok y) ∧
          o = some y := by
  unfold callMember
  cases ms.get? m.key with
  | none => cases m.required <;> simp [Checked.absent, eq_comm]
  | some x =>
    simp only [Option.map_eq_some_iff, reduceCtorEq, false_and, false_or, Option.some.injEq]
    constructor
    · rintro ⟨r, hr, ho⟩
      obtain ⟨y, rfl, rfl⟩ := Except.map_eq_ok.1 ho
      exact ⟨x, y, rfl, hr, rfl⟩
    · rintro ⟨_, y, rfl, hy, rfl⟩
      exact ⟨_, hy, rfl⟩

/-- **What an object is accepted as**: an object `ws` of declared members, in the order of their
declarations, each as `callMember` accepts it. -/
theorem callWith_object_eq_ok {members : List (Member Input)} :
    callWith deferred (.object members) v = some (.ok w) ↔ ∃ ms ws : Dict Json, v = .object ms ∧
      w = .object ws ∧ ws.names.Sublist (Member.keys (Member.distinct members)) ∧
        ∀ m ∈ Member.distinct members, callMember deferred ms m = some (.ok (ws.get? m.key)) := by
  cases v with
  | object ms =>
    rw [callWith_object, Checked.ofMembers_mapM_eq_ok (Member.nodup_keys_distinct members)]
    simp only [Json.object.injEq, exists_and_left, exists_eq_left']
    rfl
  | _ => exact iff_of_false (fun h => by cases h) fun ⟨_, _, h, _⟩ => by cases h

/-- There is an answer for an object if there is one for each declared member. -/
theorem answers_object {members : List (Member Input)} :
    Answers deferred (.object members) v ↔ ∀ ms, v = .object ms → ∀ m ∈ Member.distinct members,
      ∀ x, Dict.get? ms m.key = some x → Answers deferred m.value x := by
  cases v with
  | object ms =>
    rw [Answers, callWith_object, Option.isSome_map, mapM_isSome]
    simp only [Json.object.injEq, forall_eq', Option.isSome_map, Answers]
    refine forall₂_congr fun m _ => ?_
    unfold callMember
    cases Dict.get? ms m.key <;> simp
  | _ => exact iff_of_true rfl nofun

/-! ## Arrays -/

theorem accepts_list {item : Input} :
    Accepts deferred (.list item) v ↔ ∃ xs, v = .array xs ∧ ∀ x ∈ xs, Accepts deferred item x := by
  cases v with
  | array xs =>
    have hitem : ∀ x, Accepts deferred item x ↔
        ∃ r, callWith deferred item x = some r ∧ ∃ w, r = .ok w := fun x =>
      ⟨fun ⟨w, hw⟩ => ⟨_, hw, w, rfl⟩, fun ⟨_, hr, w, hw⟩ => ⟨w, hw ▸ hr⟩⟩
    simp only [Json.array.injEq, exists_eq_left', hitem, ← exists_mapM]
    have hlist : callWith deferred (.list item) (.array xs) =
        (xs.mapM (callWith deferred item)).map Checked.ofItems := rfl
    simp only [Accepts, hlist, Option.map_eq_some_iff, Checked.ofItems_eq_ok]
    constructor
    · rintro ⟨w, rs, hrs, hok, -⟩
      exact ⟨rs, hrs, hok⟩
    · rintro ⟨rs, hrs, hok⟩
      exact ⟨_, rs, hrs, hok, rfl⟩
  | _ => exact iff_of_false (fun ⟨_, h⟩ => by cases h) fun ⟨_, h, _⟩ => by cases h

/-- **What an array is accepted as**: an array of its items, each as `item` accepts it. -/
theorem callWith_list_eq_ok {item : Input} :
    callWith deferred (.list item) v = some (.ok w) ↔ ∃ xs ys, v = .array xs ∧ w = .array ys ∧
      List.Forall₂ (fun x y => callWith deferred item x = some (.ok y)) xs ys := by
  cases v with
  | array xs =>
    have hlist : callWith deferred (.list item) (.array xs) =
        (xs.mapM (callWith deferred item)).map Checked.ofItems := rfl
    rw [hlist, Checked.ofItems_mapM_eq_ok]
    simp only [Json.array.injEq, exists_and_left, exists_eq_left']
  | _ => exact iff_of_false (fun h => by cases h) fun ⟨_, _, h, _⟩ => by cases h

theorem answers_list {item : Input} :
    Answers deferred (.list item) v ↔ ∀ xs, v = .array xs → ∀ x ∈ xs, Answers deferred item x := by
  cases v with
  | array xs =>
    have hlist : callWith deferred (.list item) (.array xs) =
        (xs.mapM (callWith deferred item)).map Checked.ofItems := rfl
    rw [Answers, hlist, Option.isSome_map, mapM_isSome]
    simp only [Json.array.injEq, forall_eq']
    rfl
  | _ => exact iff_of_true rfl nofun

/-! ## Unions and inheritance -/

theorem callWith_either (left right : Input) (v : Json) :
    callWith deferred (.either left right) v = (callWith deferred left v).bind fun r =>
      match r with
      | .ok w => some (.ok w)
      | .error l => (callWith deferred right v).map (Except.mapError (Report.either l)) := rfl

theorem callWith_merge (parent child : Input) (v : Json) :
    callWith deferred (.merge parent child) v = (callWith deferred parent v).bind fun p =>
      (callWith deferred child v).bind fun c => some (Checked.merge p c) := rfl

/-- A value that a union accepts is accepted by one of its sides, with the same result. -/
theorem callWith_either_eq_ok {left right : Input}
    (h : callWith deferred (.either left right) v = some (.ok w)) :
    callWith deferred left v = some (.ok w) ∨ callWith deferred right v = some (.ok w) := by
  obtain ⟨r, hr, h⟩ := Option.bind_eq_some_iff.1 (callWith_either left right v ▸ h)
  cases r with
  | ok w' => exact Or.inl (hr.trans h)
  | error l =>
    obtain ⟨r', hr', h⟩ := Option.map_eq_some_iff.1 h
    cases r' with
    | ok w' => exact Or.inr (hr'.trans (congrArg some h))
    | error e => simp [Except.mapError] at h

theorem accepts_or_of_accepts_either {left right : Input}
    (h : Accepts deferred (.either left right) v) :
    Accepts deferred left v ∨ Accepts deferred right v := by
  obtain ⟨w, h⟩ := h
  exact (callWith_either_eq_ok h).imp (fun h => ⟨w, h⟩) fun h => ⟨w, h⟩

/-- There is an answer for `either left right` if `left` accepts, or `left` answers and `right`
does. -/
theorem answers_either {left right : Input} : Answers deferred (.either left right) v ↔
    Answers deferred left v ∧ (Accepts deferred left v ∨ Answers deferred right v) := by
  rw [Answers, callWith_either, Answers, Answers, Accepts]
  cases callWith deferred left v with
  | none => simp
  | some r => cases r <;> simp

theorem accepts_either {left right : Input} (h : Answers deferred (.either left right) v) :
    Accepts deferred (.either left right) v ↔
      Accepts deferred left v ∨ Accepts deferred right v := by
  refine ⟨accepts_or_of_accepts_either, fun h' => ?_⟩
  rcases (answers_either.1 h).1.cases with ⟨w, hw⟩ | ⟨l, hl⟩
  · exact ⟨w, by rw [callWith_either, hw]; rfl⟩
  · obtain ⟨w, hw⟩ := h'.resolve_left fun ⟨w, hw⟩ => by simp [hl] at hw
    exact ⟨w, by rw [callWith_either, hl, Option.bind_some, hw]; rfl⟩

/-- An inheritance accepts what both sides accept, and lays the result of `child` over that of
`parent`. -/
theorem callWith_merge_eq_ok {parent child : Input} :
    callWith deferred (.merge parent child) v = some (.ok w) ↔ ∃ p c,
      callWith deferred parent v = some (.ok p) ∧ callWith deferred child v = some (.ok c) ∧
        w = p.merge c := by
  simp only [callWith_merge, Option.bind_eq_some_iff, Option.some.injEq]
  constructor
  · rintro ⟨_, hp, _, hc, h⟩
    obtain ⟨p, c, rfl, rfl, rfl⟩ := Checked.merge_eq_ok.1 h
    exact ⟨p, c, hp, hc, rfl⟩
  · rintro ⟨p, c, hp, hc, rfl⟩
    exact ⟨_, hp, _, hc, rfl⟩

theorem accepts_merge {parent child : Input} : Accepts deferred (.merge parent child) v ↔
    Accepts deferred parent v ∧ Accepts deferred child v := by
  simp only [Accepts, callWith_merge_eq_ok]
  constructor
  · rintro ⟨w, p, c, hp, hc, -⟩
    exact ⟨⟨p, hp⟩, c, hc⟩
  · rintro ⟨⟨p, hp⟩, c, hc⟩
    exact ⟨p.merge c, p, c, hp, hc, rfl⟩

theorem accepts_optional {inner : Input} :
    Accepts deferred (.optional inner) v ↔ v = .null ∨ Accepts deferred inner v := by
  cases v with
  | null => exact iff_of_true ⟨.null, rfl⟩ (Or.inl rfl)
  | _ => exact (or_iff_right nofun).symm

theorem callWith_optional_eq_ok {inner : Input} :
    callWith deferred (.optional inner) v = some (.ok w) ↔
      (v = .null ∧ w = .null) ∨ (v ≠ .null ∧ callWith deferred inner v = some (.ok w)) := by
  cases v with
  | null =>
    have hnull : callWith deferred (.optional inner) .null = some (.ok .null) := rfl
    simp [hnull, eq_comm]
  | _ =>
    refine Iff.trans ?_ (or_iff_right nofun).symm
    exact (and_iff_right nofun).symm

/-! ## Refinements -/

omit [Regex.Engine] in
/-- A refined value is a value that passes the test. -/
theorem refine_eq_ok {r : Checked} {test : Json → Bool} {message : String} :
    Checked.refine r test message = .ok w ↔ r = .ok w ∧ test w := by
  cases r with
  | error e => simp [Checked.refine]
  | ok w' =>
    rw [Checked.refine, Checked.check_eq_ok, Except.ok.injEq]
    exact ⟨fun ⟨h, hw⟩ => ⟨hw.symm, hw ▸ h⟩, fun ⟨hw, h⟩ => ⟨hw ▸ h, hw.symm⟩⟩

omit [Regex.Engine] in
theorem bind_refine_eq_ok {o : Outcome} {test : Json → Bool} {message : String} :
    (o.bind fun r => some (Checked.refine r test message)) = some (.ok w) ↔
      o = some (.ok w) ∧ test w := by
  cases o with
  | none => exact ⟨nofun, fun h => nomatch h.1⟩
  | some r => rw [Option.bind_some, Option.some.injEq, refine_eq_ok, Option.some.injEq]

theorem callWith_enum_eq_ok {inner : Input} {values : List Json} :
    callWith deferred (.enum inner values) v = some (.ok w) ↔
      callWith deferred inner v = some (.ok w) ∧ isMember values w :=
  bind_refine_eq_ok

theorem callWith_pattern_eq_ok {inner : Input} {regex : Regex} :
    callWith deferred (.pattern inner regex) v = some (.ok w) ↔
      callWith deferred inner v = some (.ok w) ∧ fits regex w :=
  bind_refine_eq_ok

theorem callWith_inRange_eq_ok {inner : Input} {interval : Interval} :
    callWith deferred (.inRange inner interval) v = some (.ok w) ↔
      callWith deferred inner v = some (.ok w) ∧ liesIn interval w :=
  bind_refine_eq_ok

theorem callWith_multipleOf_eq_ok {inner : Input} {factor : Binary64} :
    callWith deferred (.multipleOf inner factor) v = some (.ok w) ↔
      callWith deferred inner v = some (.ok w) ∧ isDivided factor w :=
  bind_refine_eq_ok

end Input

end JsonShape
