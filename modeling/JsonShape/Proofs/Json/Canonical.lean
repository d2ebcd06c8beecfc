import JsonShape.Json.Basic
import JsonShape.Proofs.Dict
import JsonShape.Proofs.Induction

/-!
# Canonical forms of values

Values are equal if they have one canonical form. A canonical form is its own one
(`canonical_canonical`), and it is the same member of an enumeration (`sameMember_canonical`).
-/

namespace JsonShape

namespace Number

@[simp] theorem canonical_canonical (n : Number) : n.canonical.canonical = n.canonical := by
  cases n with
  | int n => rfl
  | float x =>
    by_cases h : x.isZero
    · simp only [canonical, h, if_true]
      rfl
    · simp [canonical, h]

theorem units_of_isZero {x : Binary64} (h : x.isZero) : x.units = 0 := by
  simp only [Binary64.isZero, beq_iff_eq] at h
  simp [Binary64.units, Binary64.magnitude, h]

@[simp] theorem sameValue_canonical (a b : Number) : a.canonical.sameValue b = a.sameValue b := by
  cases a with
  | int n => rfl
  | float x =>
    by_cases h : x.isZero
    · have hsame : ∀ y, Binary64.zero.same y = x.same y := fun y => by
        rw [Binary64.same, Binary64.same, units_of_isZero h]
        rfl
      have hc : (float x).canonical = float .zero := by simp [canonical, h]
      have hz : (float .zero).canonical = float .zero := rfl
      have hf : ∀ y, (float y).toBinary64? = some y := fun _ => rfl
      rw [hc, sameValue, sameValue, same, same, hc, hz, hf, hf]
      cases b.toBinary64? with
      | none => rfl
      | some y => simp only [hsame]
    · simp [canonical, h]

end Number

namespace Json

theorem canonicalItems_eq (xs : List Json) : canonicalItems xs = xs.map canonical := by
  induction xs with
  | nil => rfl
  | cons x rest ih => exact congrArg (x.canonical :: ·) ih

theorem canonicalMembers_eq (ms : Dict Json) : canonicalMembers ms = ms.mapValues canonical := by
  induction ms with
  | nil => rfl
  | cons e rest ih => exact congrArg ((e.1, e.2.canonical) :: ·) ih

@[simp] theorem canonical_array (xs : List Json) :
    (array xs).canonical = array (xs.map canonical) :=
  congrArg array (canonicalItems_eq xs)

@[simp] theorem canonical_object (ms : Dict Json) :
    (object ms).canonical = object (Dict.mapValues canonical ms).sortByName :=
  congrArg (fun ms => object (Dict.sortByName ms)) (canonicalMembers_eq ms)

@[simp] theorem canonical_null : null.canonical = null := rfl

@[simp] theorem canonical_bool (b : Bool) : (bool b).canonical = bool b := rfl

@[simp] theorem canonical_number (n : Number) : (number n).canonical = number n.canonical := rfl

@[simp] theorem canonical_string (s : String) : (string s).canonical = string s := rfl

@[simp] theorem get?_canonical (v : Json) (key : String) :
    v.canonical.get? key = (v.get? key).map canonical := by
  cases v with
  | object ms => rw [canonical_object, get?, Dict.get?_sortByName, Dict.get?_mapValues, get?]
  | array xs => rfl
  | _ => rfl

/-- A canonical form is its own. -/
@[simp] theorem canonical_canonical (v : Json) : v.canonical.canonical = v.canonical := by
  induction v with
  | null | bool _ | string _ => rfl
  | number n => rw [canonical_number, canonical_number, Number.canonical_canonical]
  | array xs ih =>
    rw [canonical_array, canonical_array, List.map_map]
    exact congrArg array (List.map_congr_left ih)
  | object ms ih =>
    have hms : (Dict.mapValues canonical ms).mapValues canonical = Dict.mapValues canonical ms := by
      simp only [Dict.mapValues, List.map_map]
      exact List.map_congr_left fun e he => congrArg (Prod.mk e.1) (ih e he)
    rw [canonical_object, canonical_object, Dict.mapValues_sortByName, hms,
      Dict.sortByName_of_sorted (Dict.sorted_sortByName _)]

theorem canonical_eq_string {v : Json} {s : String} :
    v.canonical = string s ↔ v = string s := by
  cases v <;> simp

theorem same_iff {a b : Json} : a.same b ↔ a.canonical = b.canonical := by
  simp [same]

/-- Objects are the `same` if their members are, by name: the order of members does not count. -/
theorem same_object_iff {a b : Dict Json} (ha : a.names.Nodup) (hb : b.names.Nodup) :
    (object a).same (object b) ↔
      ∀ k, (a.get? k).map canonical = (b.get? k).map canonical := by
  rw [same_iff]
  constructor
  · intro h k
    have hk := congrArg (fun v => v.get? k) h
    rwa [get?_canonical, get?_canonical] at hk
  · intro h
    rw [canonical_object, canonical_object]
    refine congrArg object (Dict.sortByName_eq_of_get? ?_ ?_ fun k => ?_)
    · rwa [Dict.names_mapValues]
    · rwa [Dict.names_mapValues]
    · rw [Dict.get?_mapValues, Dict.get?_mapValues, h]

/-! ## Members of enumerations -/

theorem sameMember_of_not_number {a v : Json} (h : a.isNumber = false) :
    a.sameMember v = a.same v := by
  cases a <;> first | rfl | simp [isNumber] at h

@[simp] theorem sameMember_canonical (a v : Json) : a.canonical.sameMember v = a.sameMember v := by
  cases a with
  | number n =>
    cases v with
    | number m => simp [sameMember]
    | _ => simp [sameMember, same]
  | _ =>
    rw [sameMember_of_not_number rfl, sameMember_of_not_number, same, same, canonical_canonical]
    rfl

@[simp] theorem null_sameMember (v : Json) : null.sameMember v = v.isNull := by
  cases v <;> simp [sameMember, same, isNull]

@[simp] theorem sameMember_null (a : Json) : a.sameMember null = a.isNull := by
  cases a <;> simp [sameMember, same, isNull]

theorem isNull_iff {v : Json} : v.isNull ↔ v = null := by
  cases v <;> simp [isNull]

end Json

end JsonShape
