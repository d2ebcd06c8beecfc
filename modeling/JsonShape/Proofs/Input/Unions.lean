import JsonShape.Proofs.Input.Components
import JsonShape.Proofs.Input.Limit
import JsonShape.Proofs.Schema.Flat

/-!
# Unions of unions

Alternatives are tried in their order, and the reports of all of them are put together if none
accepts. So it makes no difference which of them have been joined before (`either_assoc`). The
documentation of a union is put together in steps, which splice unions, drop equal members and leave
single ones as they are. It makes no difference there because documentation is flat, of whichever
kind the input is (`flat_docAt`).
-/

namespace JsonShape

namespace Input

open Fragment

variable [Regex.Engine] {defs : Dict Input} {deferred : String → Doc Input}

/-- No union stands directly within a union, by induction on the input: what other shapes make of
the documentation of their parts is no bare union. -/
theorem flat_docWith (hdeferred : ∀ name, Flat "oneOf" (deferred name).fragment) (i : Input) :
    Flat "oneOf" (docWith deferred i).fragment := by
  induction i with
  | text format => cases format <;> exact flat_of_get? rfl
  | number | integer | boolean | null | any => exact flat_of_get? rfl
  | object members _ =>
    rw [docWith_object, Doc.fragment_record]
    exact flat_of_get? (get?_object (by decide))
  | merge a b _ _ => exact flat_of_get? rfl
  | list a _ => exact flat_of_get? rfl
  | either a b iha ihb => exact flat_oneOf (by simpa using ⟨iha, ihb⟩)
  | optional a ih | enum a _ ih | pattern a _ ih | multipleOf a _ ih | described a _ ih =>
    exact flat_mergeOne ih (by decide)
  | inRange a interval ih => exact flat_merge ih (remarks_keywords interval _ (by decide))
  | mapped a _ ih => exact ih
  | referenced a name => exact flat_of_get? rfl
  | defer name => exact hdeferred name

theorem flat_docAt (limit : Nat) (i : Input) : Flat "oneOf" (docAt defs limit i).fragment :=
  docAt_of_docWith (Q := fun d => Flat "oneOf" d.fragment) (flat_of_get? rfl)
    (fun _ => flat_docWith) limit i

/-- The alternatives `a`, `b` and `c` are tried in their order, whichever of them have been joined
before. -/
theorem callWith_either_assoc (deferred : String → Json → Outcome) (a b c : Input) (v : Json) :
    (callWith deferred (.either (.either a b) c) v).map (Except.mapError Report.pathHash) =
      (callWith deferred (.either a (.either b c)) v).map (Except.mapError Report.pathHash) := by
  simp only [callWith]
  rcases callWith deferred a v with _ | (l | w)
  · rfl
  · rcases callWith deferred b v with _ | (m | w)
    · rfl
    · rcases callWith deferred c v with _ | (r | w) <;> rfl
    · rfl
  · rfl

/-- **Unions are associative.** Whichever of the alternatives `a`, `b` and `c` have been joined
before, `call` accepts a value alike or reports the same messages under the same paths, as
`Report.pathHash` has them, and `doc` has the same fragment and mentions the same components in the
same order. -/
theorem either_assoc (defs : Dict Input) (a b c : Input) :
    (∀ v, (call defs (.either (.either a b) c) v).map (Except.mapError Report.pathHash) =
      (call defs (.either a (.either b c)) v).map (Except.mapError Report.pathHash)) ∧
    doc defs (.either (.either a b) c) = doc defs (.either a (.either b c)) := by
  constructor
  · intro v
    rw [call, call, callAt_eq, callAt_eq]
    exact callWith_either_assoc _ a b c v
  · have hflat (i : Input) : Flat "oneOf" (docWith (docLookup defs defs.length) i).fragment :=
      docAt_eq defs.length i ▸ flat_docAt defs.length i
    rw [doc, doc, docAt_eq, docAt_eq]
    exact Doc.oneOf_assoc (hflat a) (hflat b) (hflat c)

end Input

end JsonShape
