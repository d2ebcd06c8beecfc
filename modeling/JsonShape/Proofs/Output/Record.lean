import JsonShape.Proofs.Json.Canonical
import JsonShape.Proofs.Output.Agreement

/-!
# What an object writes

An object is written property by property, in the order of the declarations in force. An array is
written item by item.

* `inForce` lists these declarations: of several with one key the last, at the place of the first.
* `callWith_object` and `reportWith_object`: an object is what its properties in force write.
* `reportWith_object_eq_ok`: what stands in an object that was written with checks.
* `reportWith_merge_eq_ok`: an object that is laid over another one.
-/

namespace JsonShape

namespace Output

variable {checked : Reporter} {unchecked : Caller} {properties : List (Property Output)}
  {p : Property Output} {v : Json}

/-! ## Declarations in force -/

/-- The declaration of a property as a member, with something made of it. -/
def declared {α : Type} (f : Property Output → α) (p : Property Output) : Member α :=
  ⟨p.key, f p, p.required, p.description⟩

/-- The properties whose declaration is in force: of those with one key the last, at the place of
the first. -/
def inForce (properties : List (Property Output)) : List (Property Output) :=
  (Member.distinct (properties.map (declared id))).map Member.value

theorem distinct_declared {α : Type} (f : Property Output → α)
    (properties : List (Property Output)) :
    Member.distinct (properties.map (declared f)) = (inForce properties).map (declared f) := by
  have hmap : properties.map (declared f) = (properties.map (declared id)).map (Member.map f) := by
    rw [List.map_map]
    rfl
  rw [hmap, Member.distinct_map, inForce, List.map_map]
  refine List.map_congr_left fun m hm => ?_
  obtain ⟨p, -, rfl⟩ := List.mem_map.1 (Member.mem_of_mem_distinct hm)
  rfl

theorem mem_of_mem_inForce (h : p ∈ inForce properties) : p ∈ properties := by
  obtain ⟨m, hm, rfl⟩ := List.mem_map.1 h
  obtain ⟨p, hp, rfl⟩ := List.mem_map.1 (Member.mem_of_mem_distinct hm)
  exact hp

/-- No two declarations in force have one key. -/
theorem nodup_keys_inForce (properties : List (Property Output)) :
    ((inForce properties).map Property.key).Nodup := by
  have h := Member.nodup_keys_distinct (properties.map (declared id))
  rw [distinct_declared, Member.keys, List.map_map] at h
  exact h

theorem inForce_of_nodup (h : (properties.map Property.key).Nodup) :
    inForce properties = properties := by
  have hkeys : (Member.keys (properties.map (declared id))).Nodup := by
    rw [Member.keys, List.map_map]
    exact h
  rw [inForce, Member.distinct_of_nodup hkeys, List.map_map]
  exact List.map_id properties

/-! ## Unchecked -/

/-- What a property writes: nothing, if it is optional and null. -/
def callProperty (unchecked : Caller) (v : Json) (p : Property Output) : Option (Option Json) :=
  if (p.read v).isNull && !p.required then some none
  else (callWith unchecked p.value none (p.read v)).map some

theorem callProperties_eq (properties : List (Property Output)) (v : Json) :
    callProperties unchecked properties v =
      properties.map (declared (callProperty unchecked v)) := by
  induction properties with
  | nil => rfl
  | cons p rest ih =>
    rw [callProperties_cons, ih]
    rfl

/-- The members that are there. -/
def present (members : List (String × Option Json)) : Dict Json :=
  members.filterMap fun m => m.2.map fun w => (m.1, w)

theorem callWith_object (properties : List (Property Output)) (view : Option String) (v : Json) :
    callWith unchecked (.object properties) view v =
      ((inForce properties).mapM fun p => (callProperty unchecked v p).map fun w => (p.key, w)).map
        fun members => .object (present members) := by
  rw [callWith, callProperties_eq, distinct_declared, List.mapM_map, Option.map_eq_bind]
  rfl

/-! ### Members by name -/

theorem mem_present {members : List (String × Option Json)} {k : String} {w : Json} :
    (k, w) ∈ present members ↔ (k, some w) ∈ members := by
  rw [present, List.mem_filterMap]
  constructor
  · rintro ⟨⟨l, x⟩, hmem, hx⟩
    obtain ⟨w', rfl, heq⟩ := Option.map_eq_some_iff.1 hx
    obtain ⟨rfl, rfl⟩ := Prod.mk.inj heq
    exact hmem
  · intro hmem
    exact ⟨_, hmem, rfl⟩

theorem names_present_sublist (members : List (String × Option Json)) :
    (present members).names.Sublist (members.map Prod.fst) := by
  induction members with
  | nil => exact List.Sublist.refl _
  | cons m rest ih =>
    obtain ⟨k, w⟩ := m
    cases w with
    | none => exact ih.cons k
    | some w => exact ih.cons_cons k

section Answers

variable {answer : Property Output → Option (Option Json)}
  {members : List (String × Option Json)}

/-- There are members if there is an answer for each property. -/
theorem exists_mapM_key :
    (∃ members, (properties.mapM fun p => (answer p).map fun w => (p.key, w)) = some members) ↔
      ∀ p ∈ properties, ∃ w, answer p = some w := by
  induction properties with
  | nil => exact iff_of_true ⟨[], rfl⟩ nofun
  | cons p rest ih =>
    rw [List.forall_mem_cons, ← ih]
    constructor
    · rintro ⟨_, h⟩
      obtain ⟨_, ms, hm, hms, -⟩ := mapM_cons_eq_some.1 h
      obtain ⟨w, hw, -⟩ := Option.map_eq_some_iff.1 hm
      exact ⟨⟨w, hw⟩, ms, hms⟩
    · rintro ⟨⟨w, hw⟩, ms, hms⟩
      exact ⟨_, mapM_cons_eq_some.2 ⟨(p.key, w), ms, by rw [hw, Option.map_some], hms, rfl⟩⟩

/-- The members are the answers for the properties, under their keys. -/
theorem mem_of_mapM_key
    (h : (properties.mapM fun p => (answer p).map fun w => (p.key, w)) = some members) :
    members.map Prod.fst = properties.map Property.key ∧
      ∀ k w, (k, w) ∈ members ↔ ∃ p ∈ properties, p.key = k ∧ answer p = some w := by
  induction properties generalizing members with
  | nil =>
    obtain rfl := Option.some.inj h
    exact ⟨rfl, fun _ _ => ⟨nofun, nofun⟩⟩
  | cons p rest ih =>
    obtain ⟨m, ms, hm, hms, rfl⟩ := mapM_cons_eq_some.1 h
    obtain ⟨w, hw, rfl⟩ := Option.map_eq_some_iff.1 hm
    obtain ⟨hkeys, hmem⟩ := ih hms
    refine ⟨by rw [List.map_cons, List.map_cons, hkeys], fun k w' => ?_⟩
    rw [List.mem_cons, List.exists_mem_cons_iff, hmem, hw, Prod.mk.injEq, Option.some.injEq,
      @eq_comm _ k, @eq_comm _ w']

end Answers

/-- An object is written if every property is. -/
theorem exists_callWith_object (h : (properties.map Property.key).Nodup) (view : Option String) :
    (∃ w, callWith unchecked (.object properties) view v = some w) ↔
      ∀ p ∈ properties, ∃ w, callProperty unchecked v p = some w := by
  rw [callWith_object, inForce_of_nodup h, ← exists_mapM_key]
  simp only [Option.map_eq_some_iff]
  constructor
  · rintro ⟨_, members, hmembers, -⟩
    exact ⟨members, hmembers⟩
  · rintro ⟨members, hmembers⟩
    exact ⟨_, members, hmembers, rfl⟩

/-- What an object writes has the members that its properties write. -/
theorem get?_of_callWith_object (h : (properties.map Property.key).Nodup) {view : Option String}
    {w : Json} (hw : callWith unchecked (.object properties) view v = some w) :
    ∃ ms : Dict Json, w = .object ms ∧ ms.names.Nodup ∧ ∀ k j, ms.get? k = some j ↔
      ∃ p ∈ properties, p.key = k ∧ callProperty unchecked v p = some (some j) := by
  rw [callWith_object, inForce_of_nodup h, Option.map_eq_some_iff] at hw
  obtain ⟨members, hmembers, rfl⟩ := hw
  obtain ⟨hkeys, hmem⟩ := mem_of_mapM_key hmembers
  have hnodup : (present members).names.Nodup :=
    (names_present_sublist members).nodup (hkeys ▸ h)
  refine ⟨_, rfl, hnodup, fun k j => ?_⟩
  rw [Dict.get?_eq_some_iff hnodup, mem_present, hmem]

/-! ## Checked -/

/-- The result for a property: one that is null is absent. -/
def reportProperty (checked : Reporter) (v : Json) (p : Property Output) :
    Option (Except Report (Option Json)) :=
  if (p.read v).isNull then some (Checked.absent p.required)
  else (reportWith checked p.value none (p.read v)).map (Except.map some)

theorem reportProperties_eq (properties : List (Property Output)) (v : Json) :
    reportProperties checked properties v =
      properties.map (declared (reportProperty checked v)) := by
  induction properties with
  | nil => rfl
  | cons p rest ih =>
    rw [reportProperties_cons, ih]
    rfl

theorem reportWith_object (properties : List (Property Output)) (view : Option String) (v : Json) :
    reportWith checked (.object properties) view v =
      ((inForce properties).mapM fun p => (reportProperty checked v p).map fun r => (p.key, r)).map
        Checked.ofMembers := by
  rw [reportWith, reportProperties_eq, distinct_declared, List.mapM_map, Option.map_eq_bind]
  rfl

/-- A property is left out where it reads null and may be, and is written otherwise. -/
theorem reportProperty_eq_ok {o : Option Json} : reportProperty checked v p = some (.ok o) ↔
    (p.read v = .null ∧ p.required = false ∧ o = none) ∨ (p.read v ≠ .null ∧
      ∃ y, reportWith checked p.value none (p.read v) = some (.ok y) ∧ o = some y) := by
  unfold reportProperty
  split
  · next h =>
    have hnull := Json.isNull_iff.1 h
    cases p.required <;> simp [Checked.absent, hnull, eq_comm]
  · next h =>
    have hnot : p.read v ≠ .null := fun heq => h (Json.isNull_iff.2 heq)
    simp only [hnot, Option.map_eq_some_iff, false_and, false_or, ne_eq, not_false_eq_true,
      true_and]
    constructor
    · rintro ⟨r, hr, ho⟩
      obtain ⟨y, rfl, rfl⟩ := Except.map_eq_ok.1 ho
      exact ⟨y, hr, rfl⟩
    · rintro ⟨y, hy, rfl⟩
      exact ⟨_, hy, rfl⟩

/-- **What an object writes with checks**: an object `ws` of its properties in force, in their
order, each as `reportProperty` has it. -/
theorem reportWith_object_eq_ok {view : Option String} {w : Json} :
    reportWith checked (.object properties) view v = some (.ok w) ↔ ∃ ws : Dict Json,
      w = .object ws ∧ ws.names.Sublist ((inForce properties).map Property.key) ∧
        ∀ p ∈ inForce properties, reportProperty checked v p = some (.ok (ws.get? p.key)) := by
  rw [reportWith_object, Checked.ofMembers_mapM_eq_ok (nodup_keys_inForce properties)]

/-- An inheritance is written if both sides are, `c` over `p`. -/
theorem reportWith_merge_eq_ok {parent child : Output} {view : Option String} {w : Json} :
    reportWith checked (.merge parent child) view v = some (.ok w) ↔ ∃ p c,
      reportWith checked parent view v = some (.ok p) ∧
        reportWith checked child view v = some (.ok c) ∧ w = p.merge c := by
  simp only [reportWith, Option.bind_eq_bind, Option.bind_eq_some_iff, Option.some.injEq]
  constructor
  · rintro ⟨_, hp, _, hc, h⟩
    obtain ⟨p, c, rfl, rfl, rfl⟩ := Checked.merge_eq_ok.1 h
    exact ⟨p, c, hp, hc, rfl⟩
  · rintro ⟨p, c, hp, hc, rfl⟩
    exact ⟨_, hp, _, hc, rfl⟩

/-! ## Other shapes, checked -/

/-- An array is written item by item. -/
theorem reportWith_list_eq_ok {item : Output} {view : Option String} {w : Json} :
    reportWith checked (.list item) view v = some (.ok w) ↔ ∃ xs ys, v = .array xs ∧
      w = .array ys ∧
      List.Forall₂ (fun x y => reportWith checked item view x = some (.ok y)) xs ys := by
  cases v with
  | array xs =>
    rw [reportWith, Checked.ofItems_mapM_eq_ok]
    simp
  | _ => simp [reportWith]

/-- Null is written as null, whatever the inner shape is. -/
theorem reportWith_optional_eq_ok {inner : Output} {view : Option String} {w : Json} :
    reportWith checked (.optional inner) view v = some (.ok w) ↔ (v = .null ∧ w = .null) ∨
      (v ≠ .null ∧ reportWith checked inner view v = some (.ok w)) := by
  cases v with
  | null => simp [reportWith, eq_comm]
  | _ =>
    rw [reportWith]
    · simp
    all_goals simp

end Output

end JsonShape
