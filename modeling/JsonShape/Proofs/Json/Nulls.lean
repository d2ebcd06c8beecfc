import JsonShape.Proofs.Json.Canonical

/-!
# Null members

A member of an object may be absent, and it may be null. `Json.withoutNulls` makes the second the
first, in all objects inside a value; nulls elsewhere stay.

* `Json.NullMember`: some object inside the value has a null member.
* `withoutNulls_eq_self_iff`: exactly then, leaving them out changes the value.
* `get?_membersWithoutNulls`: what the members are without them.
-/

namespace JsonShape

namespace Json

mutual

/-- The value without the null members of objects, at any depth. Null items of arrays stay. -/
def withoutNulls : Json → Json
  | .array items => .array (itemsWithoutNulls items)
  | .object members => .object (membersWithoutNulls members)
  | v => v

/-- The items, each without the null members of objects. -/
def itemsWithoutNulls : List Json → List Json
  | [] => []
  | x :: rest => x.withoutNulls :: itemsWithoutNulls rest

/-- The members that are not null, each without the null members of objects. -/
def membersWithoutNulls : List (String × Json) → List (String × Json)
  | [] => []
  | (key, x) :: rest =>
    if x.isNull then membersWithoutNulls rest
    else (key, x.withoutNulls) :: membersWithoutNulls rest

end

/-- An object inside the value has a null member. -/
inductive NullMember : Json → Prop
  | here {key : String} {members : List (String × Json)} (h : (key, .null) ∈ members) :
    NullMember (.object members)
  | member {e : String × Json} {members : List (String × Json)} (he : e ∈ members)
    (h : NullMember e.2) : NullMember (.object members)
  | item {x : Json} {items : List Json} (hx : x ∈ items) (h : NullMember x) :
    NullMember (.array items)

variable {members : Dict Json} {items : List Json} {v : Json}

theorem itemsWithoutNulls_eq (items : List Json) :
    itemsWithoutNulls items = items.map withoutNulls := by
  induction items with
  | nil => rfl
  | cons x rest ih => rw [itemsWithoutNulls, ih, List.map_cons]

theorem withoutNulls_array (items : List Json) :
    (array items).withoutNulls = .array (items.map withoutNulls) :=
  congrArg Json.array (itemsWithoutNulls_eq items)

/-- Null is left out of objects, but nothing becomes null. -/
theorem withoutNulls_eq_null : v.withoutNulls = .null ↔ v = .null := by
  cases v <;> simp [withoutNulls]

/-! ## Members -/

theorem names_membersWithoutNulls_sublist (members : Dict Json) :
    (Dict.names (membersWithoutNulls members)).Sublist members.names := by
  induction members with
  | nil => exact List.Sublist.refl _
  | cons e rest ih =>
    obtain ⟨key, x⟩ := e
    rw [membersWithoutNulls]
    split
    · exact ih.cons key
    · exact ih.cons_cons key

/-- A member is left out where it is null. -/
theorem get?_membersWithoutNulls (h : members.names.Nodup) (key : String) :
    Dict.get? (membersWithoutNulls members) key =
      (members.get? key).bind fun x => if x.isNull then none else some x.withoutNulls := by
  induction members with
  | nil => rfl
  | cons e rest ih =>
    obtain ⟨k, x⟩ := e
    obtain ⟨hk, hrest⟩ := List.nodup_cons.1 h
    rw [membersWithoutNulls, Dict.get?]
    by_cases hkey : k = key
    · subst hkey
      have hnone : Dict.get? (membersWithoutNulls rest) k = none :=
        Dict.get?_eq_none_iff.2 fun hmem =>
          hk ((names_membersWithoutNulls_sublist rest).subset hmem)
      rw [if_pos rfl, Option.bind_some]
      split
      · exact hnone
      · exact if_pos rfl
    · rw [if_neg hkey, ← ih hrest]
      split
      · rfl
      · exact if_neg hkey

/-! ## Values without null members -/

theorem nullMember_array : (array items).NullMember ↔ ∃ x ∈ items, x.NullMember := by
  constructor
  · rintro ⟨⟩
    exact ⟨_, ‹_›, ‹_›⟩
  · rintro ⟨x, hx, h⟩
    exact .item hx h

theorem nullMember_object : (object members).NullMember ↔
    ∃ e ∈ members, e.2 = .null ∨ e.2.NullMember := by
  constructor
  · intro h
    cases h with
    | here h => exact ⟨_, h, Or.inl rfl⟩
    | member he h => exact ⟨_, he, Or.inr h⟩
  · rintro ⟨⟨key, x⟩, he, rfl | h⟩
    · exact .here he
    · exact .member he h

theorem membersWithoutNulls_eq_self_iff
    (h : ∀ e ∈ members, e.2.withoutNulls = e.2 ↔ ¬e.2.NullMember) :
    membersWithoutNulls members = members ↔ ∀ e ∈ members, ¬(e.2 = .null ∨ e.2.NullMember) := by
  induction members with
  | nil => exact iff_of_true rfl (List.forall_mem_nil _)
  | cons e rest ih =>
    obtain ⟨key, x⟩ := e
    obtain ⟨hx, hrest⟩ := List.forall_mem_cons.1 h
    rw [List.forall_mem_cons, membersWithoutNulls, ← ih hrest, not_or, ← hx]
    by_cases hnull : x = .null
    · -- the list is shorter without its first member
      subst hnull
      refine iff_of_false (fun heq => ?_) fun hall => hall.1.1 rfl
      have hrest : membersWithoutNulls rest = (key, .null) :: rest := heq
      have hle := (names_membersWithoutNulls_sublist rest).length_le
      rw [hrest] at hle
      simp at hle
    · rw [if_neg fun h => hnull (isNull_iff.1 h)]
      simp [hnull]

/-- Leaving out null members changes a value if and only if there are some. -/
theorem withoutNulls_eq_self_iff (v : Json) : v.withoutNulls = v ↔ ¬v.NullMember := by
  induction v with
  | null | bool _ | number _ | string _ => exact iff_of_true rfl (fun h => by cases h)
  | array items ih =>
    have hmap : items.map withoutNulls = items ↔ ∀ x ∈ items, x.withoutNulls = x := by
      simpa using List.map_inj_left (f := withoutNulls) (g := id) (l := items)
    rw [withoutNulls_array, nullMember_array, array.injEq, hmap, not_exists]
    exact forall_congr' fun x => (forall_congr' (ih x)).trans not_and.symm
  | object members ih =>
    rw [withoutNulls, nullMember_object, object.injEq, membersWithoutNulls_eq_self_iff ih,
      not_exists]
    exact forall_congr' fun e => not_and.symm

end Json

end JsonShape
