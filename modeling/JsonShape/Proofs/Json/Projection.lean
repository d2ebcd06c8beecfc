import JsonShape.Proofs.Dict
import JsonShape.Proofs.Induction

/-!
# Projections of a value

A value projects to those that arise from it by dropping members of objects, at any depth, and by
writing the members in another order (`Json.Projects`). Nothing is added and no scalar is changed.

* `Projects.refl`, `projects_array`, `projects_object`: how projections are put together.
* `Projects.merge`: laying one projection over another is a projection again.
* `Projects.get?`: where no name repeats, what stands under a name is a projection of what stood
  there.
-/

namespace JsonShape

namespace Json

/-- Whether the value is an array or an object. -/
def isContainer : Json → Bool
  | .array _ | .object _ => true
  | _ => false

/-- `Projects v w`: `w` is left of `v` after dropping members of objects. -/
inductive Projects : Json → Json → Prop
  /-- What is no container stays as it is. -/
  | scalar {v : Json} (h : v.isContainer = false) : Projects v v
  /-- An array keeps its length, and each item is a projection of the one at its index. -/
  | array {xs ys : List Json} (hlength : ys.length = xs.length)
      (hitem : ∀ (i : Nat) (hx : i < xs.length) (hy : i < ys.length), Projects xs[i] ys[i]) :
      Projects (.array xs) (.array ys)
  /-- Each member of an object is a projection of one that stood under its name. -/
  | object {ms ws : Dict Json} (source : String × Json → Json)
      (hsource : ∀ e ∈ ws, (e.1, source e) ∈ ms) (hmember : ∀ e ∈ ws, Projects (source e) e.2) :
      Projects (.object ms) (.object ws)

variable {v w : Json} {xs ys : List Json} {ms ws : Dict Json}

theorem projects_array (h : List.Forall₂ Projects xs ys) : Projects (.array xs) (.array ys) :=
  .array h.length_eq.symm fun _ hx hy => h.get hx hy

theorem projects_object (h : ∀ e ∈ ws, ∃ x, (e.1, x) ∈ ms ∧ Projects x e.2) :
    Projects (.object ms) (.object ws) := by
  choose! source hsource using h
  exact .object source (fun e he => (hsource e he).1) fun e he => (hsource e he).2

theorem Projects.exists_members (h : Projects (.object ms) w) :
    ∃ ws : Dict Json, w = .object ws ∧ ∀ e ∈ ws, ∃ x, (e.1, x) ∈ ms ∧ Projects x e.2 := by
  cases h with
  | scalar h => cases h
  | object source hsource hmember =>
    exact ⟨_, rfl, fun e he => ⟨source e, hsource e he, hmember e he⟩⟩

/-- A value that is no container projects to itself only. -/
theorem Projects.eq_of_scalar (h : Projects v w) (hv : v.isContainer = false) : w = v := by
  cases h with
  | scalar _ => rfl
  | array _ _ | object _ _ _ => cases hv

theorem Projects.isContainer_eq (h : Projects v w) : w.isContainer = v.isContainer := by
  cases h <;> rfl

theorem Projects.refl (v : Json) : Projects v v := by
  induction v with
  | null | bool _ | number _ | string _ => exact .scalar rfl
  | array xs ih => exact projects_array (List.forall₂_same.2 ih)
  | object ms ih => exact projects_object fun e he => ⟨e.2, he, ih e he⟩

/-- **Two projections of a value, one laid over the other, are a projection of it**: `Json.merge`
brings nothing that `v` does not have. -/
theorem Projects.merge {p c : Json} (hp : Projects v p) (hc : Projects v c) :
    Projects v (p.merge c) := by
  cases hp with
  | object source hsource hmember =>
    obtain ⟨cs, rfl, hcs⟩ := hc.exists_members
    refine projects_object fun e he => ?_
    rcases Dict.mem_of_mem_extend he with he | he
    · exact ⟨source e, hsource e he, hmember e he⟩
    · exact hcs e he
  | array _ _ => exact hc
  | scalar h =>
    obtain rfl := hc.eq_of_scalar h
    cases c with
    | array _ | object _ => cases h
    | _ => exact .scalar rfl

/-- Where no name repeats, a member is a projection of the member of its name. -/
theorem Projects.get? (h : Projects (.object ms) w) (hnodup : ms.names.Nodup) {key : String}
    {y : Json} (hy : w.get? key = some y) : ∃ x, ms.get? key = some x ∧ Projects x y := by
  obtain ⟨ws, rfl, hws⟩ := h.exists_members
  obtain ⟨x, hx, hxy⟩ := hws _ (Dict.mem_of_get? hy)
  exact ⟨x, (Dict.get?_eq_some_iff hnodup).2 hx, hxy⟩

end Json

end JsonShape
