import JsonShape.Proofs.Dict
import JsonShape.Proofs.Induction
import JsonShape.Proofs.Members
import JsonShape.Schema.Doc

/-!
# Fragments that differ in the names of components

Two documents may list the same types under different names. Their fragments are then the same, the
order of the members included, but for what they refer to: one name in the one and another name in
the other.

* `Fragment.Renamed` relates values that differ so, for two ways of naming components.
* `Fragment.Alike`: what builds fragments keeps fragments related.
-/

namespace JsonShape

namespace Fragment

variable {f g : String → String}

mutual

/-- The same value, but for references: they refer to components named by `f` in the first value,
and by `g` in the second. -/
inductive Renamed (f g : String → String) : Json → Json → Prop
  | null : Renamed f g .null .null
  | bool (b : Bool) : Renamed f g (.bool b) (.bool b)
  | number (n : Number) : Renamed f g (.number n) (.number n)
  | string (s : String) : Renamed f g (.string s) (.string s)
  | array {xs ys : List Json} (h : List.Forall₂ (Renamed f g) xs ys) :
      Renamed f g (.array xs) (.array ys)
  | object {ms ns : Dict Json} (h : List.Forall₂ (RenamedMember f g) ms ns) :
      Renamed f g (.object ms) (.object ns)

/-- The same member, with a value that is the same but for references. A text under the keyword of
references is the reference to one component, named by `f` and by `g`. -/
inductive RenamedMember (f g : String → String) : String × Json → String × Json → Prop
  | reference (name : String) :
      RenamedMember f g (refKey, .string (componentPrefix ++ f name))
        (refKey, .string (componentPrefix ++ g name))
  | value {key : String} {v w : Json} (hkey : key = refKey → v.string? = none)
      (h : Renamed f g v w) : RenamedMember f g (key, v) (key, w)

end

theorem eq_of_forall₂ {α : Type} {R : α → α → Prop} {xs ys : List α} (h : List.Forall₂ R xs ys)
    (hR : ∀ x ∈ xs, ∀ y, R x y → x = y) : xs = ys := by
  induction h with
  | nil => rfl
  | cons hxy _ ih =>
    obtain ⟨hx, hrest⟩ := List.forall_mem_cons.1 hR
    rw [hx _ hxy, ih hrest]

/-- With one way of naming components, nothing differs. -/
theorem Renamed.eq {v w : Json} (h : Renamed f f v w) : v = w := by
  induction v generalizing w with
  | null | bool _ | number _ | string _ => cases h; rfl
  | array xs ih =>
    cases h with
    | array hxs => exact congrArg Json.array (eq_of_forall₂ hxs fun x hx _ => ih x hx)
  | object ms ih =>
    cases h with
    | object hms =>
      refine congrArg Json.object (eq_of_forall₂ hms fun e he e' h => ?_)
      cases h with
      | reference name => rfl
      | value _ h => exact congrArg (Prod.mk _) (ih _ he h)

/-! ## Fragments -/

/-- Fragments are objects, and `a` and `b` differ only in the names of components, which are `f` of
some names in the one and `g` of the same names in the other. -/
def Alike (f g : String → String) (a b : Json) : Prop :=
  ∃ ms ns : Dict Json, a = .object ms ∧ b = .object ns ∧ List.Forall₂ (RenamedMember f g) ms ns

variable {a b : Json} {ms ns : Dict Json}

theorem Alike.renamed (h : Alike f g a b) : Renamed f g a b := by
  obtain ⟨ms, ns, rfl, rfl, h⟩ := h
  exact .object h

/-- A fragment may stand under any keyword. -/
theorem Alike.member (h : Alike f g a b) (key : String) : RenamedMember f g (key, a) (key, b) := by
  refine .value (fun _ => ?_) h.renamed
  obtain ⟨ms, -, rfl, -⟩ := h
  rfl

/-- A keyword with a text, other than that of references. -/
theorem renamedMember_text {key : String} (hkey : key ≠ refKey) (text : String) :
    RenamedMember f g (key, .string text) (key, .string text) :=
  .value (fun h => absurd h hkey) (.string text)

theorem alike_reference (name : String) :
    Alike f g (Fragment.reference (f name)) (Fragment.reference (g name)) :=
  ⟨_, _, rfl, rfl, .cons (.reference name) .nil⟩

theorem Alike.array (h : Alike f g a b) : Alike f g (Fragment.array a) (Fragment.array b) := by
  refine ⟨_, _, rfl, rfl, .cons (renamedMember_text ?_ _) (.cons (h.member _) .nil)⟩
  decide

/-! ### Descriptions -/

theorem RenamedMember.key_eq {e e' : String × Json} (h : RenamedMember f g e e') : e.1 = e'.1 := by
  cases h <;> rfl

theorem contains_of_renamed (h : List.Forall₂ (RenamedMember f g) ms ns) (key : String) :
    ms.contains key = ns.contains key := by
  have hnames : ms.names = ns.names := map_eq_of_forall₂ h fun _ _ => RenamedMember.key_eq
  rw [Bool.eq_iff_iff, Dict.contains_iff, Dict.contains_iff, hnames]

/-- A keyword is written in the same place on both sides. -/
theorem renamed_insert (h : List.Forall₂ (RenamedMember f g) ms ns) {key : String} {v : Json}
    (hkey : RenamedMember f g (key, v) (key, v)) :
    List.Forall₂ (RenamedMember f g) (ms.insert key v) (ns.insert key v) := by
  induction h with
  | nil => exact .cons hkey .nil
  | @cons e e' ms ns he hes ih =>
    obtain ⟨k, x⟩ := e
    obtain ⟨k', y⟩ := e'
    obtain rfl : k = k' := he.key_eq
    rw [Dict.insert, Dict.insert]
    split
    · next hk => exact .cons (hk ▸ hkey) hes
    · exact .cons he ih

/-- Described fragments are alike: both are references, which are wrapped, or neither is. -/
theorem Alike.described (h : Alike f g a b) (text : String) :
    Alike f g (described a text) (described b text) := by
  have htext : RenamedMember f g ("description", .string text) ("description", .string text) :=
    renamedMember_text (by decide) text
  have hwrapped : RenamedMember f g ("allOf", .array [a]) ("allOf", .array [b]) :=
    .value (fun h => absurd h (by decide)) (.array (.cons h.renamed .nil))
  obtain ⟨ms, ns, rfl, rfl, h⟩ := h
  unfold Fragment.described mergeOne merge
  simp only [List.isEmpty_cons, Bool.false_eq_true, if_false, contains_of_renamed h]
  split
  · exact ⟨_, _, rfl, rfl, .cons hwrapped (.cons htext .nil)⟩
  · exact ⟨_, _, rfl, rfl, renamed_insert h htext⟩

/-! ### Records -/

/-- Records of the same members, in the same order, are `Alike` if their members are. -/
theorem alike_object (h : List.Forall₂ (fun e e' => e.1 = e'.1 ∧ Alike f g e.2 e'.2) ms ns)
    (required : List String) :
    Alike f g (Fragment.object ms required) (Fragment.object ns required) := by
  have hmembers : List.Forall₂ (RenamedMember f g) ms ns := by
    refine h.imp fun e e' he => ?_
    obtain ⟨k, x⟩ := e
    obtain ⟨k', y⟩ := e'
    obtain ⟨rfl, hxy⟩ := he
    exact hxy.member k
  have htype : RenamedMember f g ("type", .string "object") ("type", .string "object") :=
    renamedMember_text (by decide) _
  have hproperties : RenamedMember f g ("properties", .object ms) ("properties", .object ns) :=
    .value (fun h => absurd h (by decide)) (.object hmembers)
  refine ⟨_, _, rfl, rfl, .cons htype (.cons hproperties ?_)⟩
  split
  · exact .nil
  · have hrequired :
        Renamed f g (.array (required.map .string)) (.array (required.map .string)) := by
      refine .array ?_
      rw [List.forall₂_map_left_iff, List.forall₂_map_right_iff, List.forall₂_same]
      exact fun name _ => .string name
    exact .cons (.value (fun h => absurd h (by decide)) hrequired) .nil

end Fragment

end JsonShape
