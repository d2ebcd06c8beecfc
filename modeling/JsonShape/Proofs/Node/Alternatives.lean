import JsonShape.Proofs.Node.Normal

/-!
# The alternatives of a union

Of choices that are equal in normal form a union keeps the first (`Node.kept`). Its normal form is
made of those that are kept (`Node.normalize_eq_kept`). Null is among them if it is a choice, and so
is something else (`Node.exists_mem_kept_iff`); the alternatives beside null are `Node.others`.
-/

namespace JsonShape

/-! ## Lists without repetitions -/

section eraseDups

variable {α β : Type} {r : α → α → Bool}

/-- Induction on what is left of a list behind its first member, without all that repeat it. -/
theorem eraseDups_induction {motive : List α → Prop} (r : α → α → Bool) (nil : motive [])
    (cons : ∀ a as, motive (as.filter fun b => r b a = false) → motive (a :: as)) :
    ∀ as, motive as
  | [] => nil
  | a :: as => cons a as (eraseDups_induction r nil cons _)
termination_by as => as.length
decreasing_by exact Nat.lt_succ_of_le (List.length_filter_le _ _)

theorem eraseDupsBy_map (f : β → α) (bs : List β) : (bs.map f).eraseDupsBy r =
    (bs.eraseDupsBy fun a b => r (f a) (f b)).map f := by
  induction bs using eraseDups_induction (fun a b => r (f a) (f b)) with
  | nil => rfl
  | cons b rest ih =>
    rw [List.map_cons, List.eraseDupsBy_cons, List.eraseDupsBy_cons, List.map_cons, ← ih,
      List.filter_map]
    rfl

theorem mem_of_mem_eraseDupsBy {a : α} {as : List α} (h : a ∈ as.eraseDupsBy r) : a ∈ as := by
  induction as using eraseDups_induction r with
  | nil => exact h
  | cons b rest ih =>
    rw [List.eraseDupsBy_cons, List.mem_cons] at h
    exact List.mem_cons.2 (h.imp_right fun h => List.mem_of_mem_filter (ih h))

/-- What is dropped repeats, under `r`, something that is kept. -/
theorem exists_mem_eraseDupsBy {a : α} {as : List α} (hrefl : ∀ a, r a a) (h : a ∈ as) :
    ∃ b ∈ as.eraseDupsBy r, r a b := by
  induction as using eraseDups_induction r with
  | nil => cases h
  | cons b rest ih =>
    rw [List.eraseDupsBy_cons]
    cases hab : r a b with
    | true => exact ⟨b, .head _, hab⟩
    | false =>
      have hmem : a ∈ rest := (List.mem_cons.1 h).resolve_left fun hne => by
        simp [hne, hrefl] at hab
      obtain ⟨c, hc, hac⟩ := ih (List.mem_filter.2 ⟨hmem, by simpa using hab⟩)
      exact ⟨c, .tail _ hc, hac⟩

end eraseDups

namespace Node

variable {n c : Node}

/-! ## Null -/

theorem isNull_canonical (n : Node) : n.canonical.isNull = n.isNull := by
  cases n with
  | object attributes => rw [canonical, transform_object]; rfl
  | oneOf members => rw [canonical, transform_oneOf]; rfl
  | primitive _ _ | sum _ _ | list _ | enum _ => rfl

/-- Trees that are equal are both null or both not. -/
theorem isNull_of_same {m n : Node} (h : m.same n) : m.isNull = n.isNull := by
  rw [← isNull_canonical m, ← isNull_canonical n, of_decide_eq_true h]

/-- A tree that is no union is null if its normal form is. -/
theorem isNull_normalize (h : n.isUnion = false) : n.normalize.isNull = n.isNull := by
  cases n with
  | sum _ _ | oneOf _ => cases h
  | object attributes => rw [normalize_object]; rfl
  | primitive _ _ | list _ | enum _ => rfl

/-! ## Alternatives -/

/-- The choices of `n`; of those that are the `same` in normal form, the first. -/
def kept (n : Node) : List Node := n.choices.eraseDupsBy fun a b => a.normalize.same b.normalize

/-- The alternatives beside null. -/
def others (n : Node) : List Node := n.kept.filter fun c => !c.isNull

theorem mem_choices_of_mem_kept (h : c ∈ n.kept) : c ∈ n.choices := mem_of_mem_eraseDupsBy h

theorem mem_choices_of_mem_others (h : c ∈ n.others) : c ∈ n.choices :=
  mem_choices_of_mem_kept (List.mem_of_mem_filter h)

/-- The normal form of a tree is made of those of the alternatives that are `kept`. -/
theorem normalize_eq_kept (n : Node) : n.normalize = ofAlternatives (n.kept.map normalize) := by
  rw [normalize_eq_ofAlternatives, eraseDupsBy_map, kept]

theorem exists_mem_kept (h : c ∈ n.choices) : ∃ k ∈ n.kept, c.normalize.same k.normalize :=
  exists_mem_eraseDupsBy (r := fun a b : Node => a.normalize.same b.normalize)
    (fun _ => same_self _) h

/-- Dropping repetitions drops neither null nor all that is not null. -/
theorem exists_mem_kept_iff (b : Bool) :
    (∃ c ∈ n.kept, c.isNull = b) ↔ ∃ c ∈ n.choices, c.isNull = b := by
  constructor
  · rintro ⟨c, hc, hnull⟩
    exact ⟨c, mem_choices_of_mem_kept hc, hnull⟩
  · rintro ⟨c, hc, rfl⟩
    obtain ⟨k, hk, hsame⟩ := exists_mem_kept hc
    have hkc : k ∈ n.choices := mem_choices_of_mem_kept hk
    refine ⟨k, hk, ?_⟩
    rw [← isNull_normalize (isUnion_of_mem_choices n k hkc),
      ← isNull_normalize (isUnion_of_mem_choices n c hc), isNull_of_same hsame]

end Node

end JsonShape
