import JsonShape.Proofs.Dict
import JsonShape.Json.Basic

/-!
# Depths of parts

An array or an object nests deeper than each of its items and members, by the definition of
`Json.depth`. Recursions on the parts of a value that are limited by a depth rest on this.
-/

namespace JsonShape

namespace Json

theorem depth_le_of_mem_items {xs : List Json} {x : Json} (h : x ∈ xs) :
    x.depth ≤ depthItems xs := by
  induction xs with
  | nil => simp at h
  | cons y rest ih =>
    have hle : depthItems (y :: rest) = max y.depth (depthItems rest) := rfl
    rcases List.mem_cons.1 h with rfl | h
    · omega
    · have := ih h
      omega

theorem depth_lt_of_mem {xs : List Json} {x : Json} (h : x ∈ xs) : x.depth < (array xs).depth :=
  Nat.lt_succ_of_le (depth_le_of_mem_items h)

theorem depth_le_of_mem_members {ms : List (String × Json)} {e : String × Json} (h : e ∈ ms) :
    e.2.depth ≤ depthMembers ms := by
  induction ms with
  | nil => simp at h
  | cons f rest ih =>
    have hle : depthMembers (f :: rest) = max f.2.depth (depthMembers rest) := rfl
    rcases List.mem_cons.1 h with rfl | h
    · omega
    · have := ih h
      omega

theorem depth_lt_of_mem_members {ms : List (String × Json)} {e : String × Json} (h : e ∈ ms) :
    e.2.depth < (object ms).depth := Nat.lt_succ_of_le (depth_le_of_mem_members h)

theorem depth_lt_of_get? {ms : Dict Json} {key : String} {x : Json} (h : ms.get? key = some x) :
    x.depth < (object ms).depth := depth_lt_of_mem_members (Dict.mem_of_get? h)

end Json

end JsonShape
