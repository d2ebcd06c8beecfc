import JsonShape.Dict
import JsonShape.Json.Number

/-!
# JSON values

The members of an object keep their order. Order matters to what is written, and not to equality:
`Json.same` compares canonical forms, in which the members are sorted by name.

* `Json.get?` reads a member.
* `Json.same` is equality as JSON values, `Json.sameMember` the looser comparison of enumerations,
  in which `1` and `1.0` agree.
* `Json.merge` lays one object over another.
-/

namespace JsonShape

/-- A JSON value. -/
inductive Json
  | null
  | bool (b : Bool)
  | number (n : Number)
  | string (s : String)
  | array (items : List Json)
  | object (members : List (String × Json))

namespace Json

/-! ## Decidable equality -/

mutual

/-- Decides whether two values are the same term. -/
def decEq : (a b : Json) → Decidable (a = b)
  | .null, .null => isTrue rfl
  | .bool a, .bool b => decidable_of_iff (a = b) (by simp)
  | .number a, .number b => decidable_of_iff (a = b) (by simp)
  | .string a, .string b => decidable_of_iff (a = b) (by simp)
  | .array a, .array b =>
    match decEqItems a b with
    | isTrue h => isTrue (h ▸ rfl)
    | isFalse h => isFalse fun e => h (by injection e)
  | .object a, .object b =>
    match decEqMembers a b with
    | isTrue h => isTrue (h ▸ rfl)
    | isFalse h => isFalse fun e => h (by injection e)
  | .null, .bool _ | .null, .number _ | .null, .string _ | .null, .array _ | .null, .object _
  | .bool _, .null | .bool _, .number _ | .bool _, .string _ | .bool _, .array _
  | .bool _, .object _ | .number _, .null | .number _, .bool _ | .number _, .string _
  | .number _, .array _ | .number _, .object _ | .string _, .null | .string _, .bool _
  | .string _, .number _ | .string _, .array _ | .string _, .object _ | .array _, .null
  | .array _, .bool _ | .array _, .number _ | .array _, .string _ | .array _, .object _
  | .object _, .null | .object _, .bool _ | .object _, .number _ | .object _, .string _
  | .object _, .array _ => isFalse (by intro h; cases h)

/-- Decides whether two lists of values are the same. -/
def decEqItems : (a b : List Json) → Decidable (a = b)
  | [], [] => isTrue rfl
  | [], _ :: _ | _ :: _, [] => isFalse (by simp)
  | a :: as, b :: bs =>
    match decEq a b, decEqItems as bs with
    | isTrue h, isTrue h' => isTrue (by rw [h, h'])
    | isFalse h, _ => isFalse (by simp [h])
    | _, isFalse h => isFalse (by simp [h])

/-- Decides whether two lists of members are the same. -/
def decEqMembers : (a b : List (String × Json)) → Decidable (a = b)
  | [], [] => isTrue rfl
  | [], _ :: _ | _ :: _, [] => isFalse (by simp)
  | (k, a) :: as, (l, b) :: bs =>
    match instDecidableEqString k l, decEq a b, decEqMembers as bs with
    | isTrue h, isTrue h', isTrue h'' => isTrue (by rw [h, h', h''])
    | isFalse h, _, _ => isFalse (by simp [h])
    | _, isFalse h, _ => isFalse (by simp [h])
    | _, _, isFalse h => isFalse (by simp [h])

end

instance : DecidableEq Json := decEq

instance : Inhabited Json := ⟨.null⟩

/-! ## Members -/

/-- The member `key` of an object. -/
def get? : Json → String → Option Json
  | .object ms, key => Dict.get? ms key
  | _, _ => none

/-- The member `key` of an object, and null where there is none. -/
def getOrNull (v : Json) (key : String) : Json := (v.get? key).getD .null

/-- The text of a string value. -/
def string? : Json → Option String
  | .string s => some s
  | _ => none

/-- The items of an array value. -/
def items? : Json → Option (List Json)
  | .array xs => some xs
  | _ => none

/-- The members of an object value. -/
def members? : Json → Option (Dict Json)
  | .object ms => some ms
  | _ => none

/-- Whether the value is null. -/
def isNull : Json → Bool
  | .null => true
  | _ => false

/-- Whether the value is a boolean. -/
def isBoolean : Json → Bool
  | .bool _ => true
  | _ => false

/-- Whether the value is a number. -/
def isNumber : Json → Bool
  | .number _ => true
  | _ => false

/-- Whether the value is a number without a fractional part. -/
def isInteger : Json → Bool
  | .number n => n.isIntegral
  | _ => false

/-- Whether the value is a string. -/
def isString : Json → Bool
  | .string _ => true
  | _ => false

/-- Whether the value is an array. -/
def isArray : Json → Bool
  | .array _ => true
  | _ => false

/-- Two objects in one, the members of the second written over those of the first. Where either is
no object, the second value. -/
def merge : Json → Json → Json
  | .object a, .object b => .object (Dict.extend a b)
  | _, b => b

/-! ## Depth -/

mutual

/-- How deep arrays and objects are nested in a value. -/
def depth : Json → Nat
  | .array xs => depthItems xs + 1
  | .object ms => depthMembers ms + 1
  | _ => 0

/-- The depth of the deepest item. -/
def depthItems : List Json → Nat
  | [] => 0
  | x :: rest => max x.depth (depthItems rest)

/-- The depth of the deepest member. -/
def depthMembers : List (String × Json) → Nat
  | [] => 0
  | (_, x) :: rest => max x.depth (depthMembers rest)

end

/-! ## Equality of values -/

mutual

/-- The form that equal values share: members sorted by name, one floating-point zero. -/
def canonical : Json → Json
  | .number n => .number n.canonical
  | .array xs => .array (canonicalItems xs)
  | .object ms => .object (Dict.sortByName (canonicalMembers ms))
  | v => v

/-- The canonical forms of the items. -/
def canonicalItems : List Json → List Json
  | [] => []
  | x :: rest => x.canonical :: canonicalItems rest

/-- The canonical forms of the members, in their order. -/
def canonicalMembers : List (String × Json) → List (String × Json)
  | [] => []
  | (k, x) :: rest => (k, x.canonical) :: canonicalMembers rest

end

/-- Equality as JSON values: the order of members does not count. -/
def same (a b : Json) : Bool := a.canonical = b.canonical

/-- Whether `value` is the member `allowed` of an enumeration: numbers agree if their values do. -/
def sameMember (allowed value : Json) : Bool :=
  match allowed, value with
  | .number a, .number b => a.sameValue b
  | _, _ => allowed.same value

@[simp] theorem same_self (a : Json) : a.same a := by simp [same]

theorem same_symm {a b : Json} (h : a.same b) : b.same a := by
  simp only [same, decide_eq_true_eq] at h ⊢
  exact h.symm

theorem same_trans {a b c : Json} (h : a.same b) (h' : b.same c) : a.same c := by
  simp only [same, decide_eq_true_eq] at h h' ⊢
  exact h.trans h'

end Json

end JsonShape
