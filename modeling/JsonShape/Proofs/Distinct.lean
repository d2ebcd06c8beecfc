import Mathlib.Data.List.Induction

/-!
# Lists of distinct members

Members of unions, components, messages and names are all collected in one way: each is added at
the end of a list unless one like it is there. So nothing comes in from elsewhere
(`AddsNew.mem_of_mem_foldl`) and nothing is lost but repetitions (`AddsNew.exists_mem_foldl`); what
is collected are the first occurrences (`AddsNew.foldl_eq_eraseDupsBy`), and it makes no difference
which of the members have been collected before (`AddsNew.foldl_foldl`).

* `addNew` collects values in this way, so that `List.eraseDups` is what it makes of a list
  (`eraseDups_eq_foldl`).
-/

namespace JsonShape

/-- `add` puts a member at the end of a list, unless one of the same class under `r` is there. -/
structure AddsNew {α : Type} (add : List α → α → List α) (r : α → α → Prop) : Prop where
  equivalence : Equivalence r
  held : ∀ {l : List α} {x : α}, (∃ y ∈ l, r y x) → add l x = l
  fresh : ∀ {l : List α} {x : α}, (¬∃ y ∈ l, r y x) → add l x = l ++ [x]

namespace AddsNew

variable {α β : Type} {add : List α → α → List α} {r : α → α → Prop} {l : List α} {x z : α}

/-- Members are compared by a test. -/
theorem of_any {same : α → α → Bool} (h : Equivalence fun x y => same x y) :
    AddsNew (fun l x => if l.any fun y => same y x then l else l ++ [x]) fun x y => same x y where
  equivalence := h
  held hx := if_pos (List.any_eq_true.2 hx)
  fresh hx := if_neg fun hany => hx (List.any_eq_true.1 hany)

theorem mem_of_mem_add (h : AddsNew add r) (hx : x ∈ add l z) : x ∈ l ∨ x = z := by
  by_cases hz : ∃ y ∈ l, r y z
  · rw [h.held hz] at hx
    exact Or.inl hx
  · rw [h.fresh hz, List.mem_append, List.mem_singleton] at hx
    exact hx

theorem mem_of_mem_foldl (h : AddsNew add r) {xs : List α} (hx : x ∈ xs.foldl add l) :
    x ∈ l ∨ x ∈ xs := by
  induction xs generalizing l with
  | nil => exact Or.inl hx
  | cons z rest ih =>
    rcases ih hx with hx | hx
    · exact (h.mem_of_mem_add hx).imp_right fun heq => List.mem_cons.2 (Or.inl heq)
    · exact Or.inr (.tail _ hx)

section Classes

variable {Q : α → Prop} (hQ : ∀ x y, r x y → (Q x ↔ Q y))
include hQ

theorem exists_mem_add (h : AddsNew add r) (l : List α) (z : α) :
    (∃ y ∈ add l z, Q y) ↔ (∃ y ∈ l, Q y) ∨ Q z := by
  by_cases hz : ∃ y ∈ l, r y z
  · rw [h.held hz]
    refine ⟨Or.inl, fun hex => hex.elim id fun hQz => ?_⟩
    obtain ⟨y, hy, hyz⟩ := hz
    exact ⟨y, hy, (hQ y z hyz).2 hQz⟩
  · rw [h.fresh hz]
    simp only [List.mem_append, List.mem_singleton, or_and_right, exists_or, exists_eq_left]

/-- A property of classes holds of a member that is kept if it holds of one that came in. -/
theorem exists_mem_foldl (h : AddsNew add r) (l xs : List α) :
    (∃ y ∈ xs.foldl add l, Q y) ↔ (∃ y ∈ l, Q y) ∨ ∃ y ∈ xs, Q y := by
  induction xs generalizing l with
  | nil => simp
  | cons z rest ih =>
    rw [List.foldl_cons, ih, h.exists_mem_add hQ, or_assoc]
    simp only [List.mem_cons, or_and_right, exists_or, exists_eq_left]

end Classes

/-- Where something comes in, something is kept. -/
theorem foldl_ne_nil (h : AddsNew add r) {xs : List α} (hxs : xs ≠ []) : xs.foldl add l ≠ [] := by
  obtain ⟨x, hx⟩ := List.exists_mem_of_ne_nil xs hxs
  obtain ⟨y, hy, -⟩ := (h.exists_mem_foldl (Q := fun _ => True) (fun _ _ _ => Iff.rfl) l xs).2
    (Or.inr ⟨x, hx, trivial⟩)
  exact List.ne_nil_of_mem hy

/-! ## Lists without repetitions -/

theorem pairwise_add (h : AddsNew add r) (hl : l.Pairwise fun x y => ¬r x y) (z : α) :
    (add l z).Pairwise fun x y => ¬r x y := by
  by_cases hz : ∃ y ∈ l, r y z
  · rwa [h.held hz]
  · rw [h.fresh hz, List.pairwise_append]
    refine ⟨hl, List.pairwise_singleton _ _, fun y hy x hx hyx => hz ⟨y, hy, ?_⟩⟩
    rwa [← List.mem_singleton.1 hx]

/-- No two members that are kept are of one class. -/
theorem pairwise_foldl (h : AddsNew add r) (hl : l.Pairwise fun x y => ¬r x y) (xs : List α) :
    (xs.foldl add l).Pairwise fun x y => ¬r x y := by
  induction xs generalizing l with
  | nil => exact hl
  | cons z rest ih => exact ih (h.pairwise_add hl z)

/-- Of members of different classes all are kept. -/
theorem foldl_of_pairwise (h : AddsNew add r) {xs : List α}
    (hxs : (l ++ xs).Pairwise fun x y => ¬r x y) : xs.foldl add l = l ++ xs := by
  induction xs generalizing l with
  | nil => exact (List.append_nil l).symm
  | cons z rest ih =>
    have hnew : ¬∃ y ∈ l, r y z := fun ⟨y, hy, hyz⟩ =>
      (List.pairwise_append.1 hxs).2.2 y hy z (.head _) hyz
    have hassoc : l ++ z :: rest = l ++ [z] ++ rest := by
      rw [List.append_assoc, List.singleton_append]
    rw [hassoc] at hxs ⊢
    rw [List.foldl_cons, h.fresh hnew, ih hxs]

/-- **Of the members of one class the first is kept**, in the order of the list: what `add` collects
is what `List.eraseDupsBy` leaves. -/
theorem foldl_eq_eraseDupsBy {same : α → α → Bool} (h : AddsNew add fun x y => same x y)
    (xs : List α) : xs.foldl add [] = xs.eraseDupsBy same := by
  suffices ∀ l : List α, xs.foldl add l =
      l ++ (xs.filter fun x => !l.any fun y => same y x).eraseDupsBy same by
    have hall : (xs.filter fun x => !([] : List α).any fun y => same y x) = xs :=
      List.filter_eq_self.2 fun _ _ => rfl
    rw [this, hall, List.nil_append]
  induction xs with
  | nil => simp
  | cons x rest ih =>
    intro l
    rw [List.foldl_cons, ih]
    by_cases hx : l.any fun y => same y x
    · rw [h.held (List.any_eq_true.1 hx)]
      simp [hx]
    · have hsymm : ∀ y : α, same x y = same y x := fun y =>
        Bool.eq_iff_iff.2 ⟨h.equivalence.symm, h.equivalence.symm⟩
      rw [h.fresh fun hex => hx (List.any_eq_true.2 hex)]
      simp [hx, List.eraseDupsBy_cons, List.filter_filter, hsymm, Bool.and_comm]

/-! ## Portions -/

/-- **What has been collected before is collected like what it was collected from**, by induction on
`xs` from its end. -/
theorem foldl_foldl (h : AddsNew add r) (l xs : List α) :
    (xs.foldl add []).foldl add l = xs.foldl add l := by
  induction xs using List.reverseRecOn with
  | nil => rfl
  | append_singleton xs x ih =>
    simp only [List.foldl_append, List.foldl_cons, List.foldl_nil]
    by_cases hx : ∃ y ∈ xs.foldl add [], r y x
    · -- A member of its class has been collected, so that it adds nothing on either side.
      have hclass : ∀ y z, r y z → (r y x ↔ r z x) := fun y z hyz =>
        ⟨h.equivalence.trans (h.equivalence.symm hyz), h.equivalence.trans hyz⟩
      have hthere : ∃ y ∈ xs.foldl add l, r y x :=
        (h.exists_mem_foldl hclass l xs).2
          (Or.inr (((h.exists_mem_foldl hclass [] xs).1 hx).resolve_left (by simp)))
      rw [h.held hx, h.held hthere, ih]
    · rw [h.fresh hx, List.foldl_append, ih, List.foldl_cons, List.foldl_nil]

/-- Portions can be collected one by one before they are collected together. -/
theorem foldl_flatMap (h : AddsNew add r) (l : List α) (f : β → List α) (bs : List β) :
    (bs.flatMap fun b => (f b).foldl add []).foldl add l = (bs.flatMap f).foldl add l := by
  induction bs generalizing l with
  | nil => rfl
  | cons b rest ih =>
    rw [List.flatMap_cons, List.flatMap_cons, List.foldl_append, List.foldl_append,
      h.foldl_foldl, ih]

end AddsNew

/-! ## Values at their first occurrences -/

/-- A list with a value at its end, unless the value is there. -/
def addNew {α : Type} [BEq α] (l : List α) (x : α) : List α := if l.contains x then l else l ++ [x]

section Values

variable {α β : Type} [BEq α] [LawfulBEq α] {l xs : List α} {x : α}

theorem addsNew_addNew : AddsNew (addNew (α := α)) fun x y => x == y where
  equivalence := ⟨beq_self_eq_true, BEq.symm, PartialEquivBEq.trans⟩
  held := by
    rintro l x ⟨y, hy, hyx⟩
    exact if_pos (List.contains_iff_mem.2 (eq_of_beq hyx ▸ hy))
  fresh := by
    intro l x h
    exact if_neg fun hc => h ⟨x, List.contains_iff_mem.1 hc, beq_self_eq_true x⟩

theorem mem_foldl_addNew : x ∈ xs.foldl addNew l ↔ x ∈ l ∨ x ∈ xs := by
  have hclass : ∀ y z : α, y == z → (x = y ↔ x = z) := fun y z h => by rw [eq_of_beq h]
  simpa using addsNew_addNew.exists_mem_foldl hclass l xs

/-- **Values that are collected one by one stand where they first come**: `List.eraseDups` collects
with `addNew`. -/
theorem eraseDups_eq_foldl (xs : List α) : xs.eraseDups = xs.foldl addNew [] :=
  (addsNew_addNew.foldl_eq_eraseDupsBy xs).symm

/-- A value at the end of a list is new, or stands there already. -/
theorem List.eraseDups_append_singleton (xs : List α) (x : α) [Decidable (x ∈ xs)] :
    (xs ++ [x]).eraseDups = if x ∈ xs then xs.eraseDups else xs.eraseDups ++ [x] := by
  rw [eraseDups_eq_foldl, List.foldl_append, ← eraseDups_eq_foldl, List.foldl_cons, List.foldl_nil,
    addNew]
  simp only [List.contains_iff_mem, List.mem_eraseDups]

/-- What is collected after a list is collected as if it stood behind it. -/
theorem foldl_addNew_eraseDups (xs more : List α) :
    more.foldl addNew xs.eraseDups = (xs ++ more).eraseDups := by
  rw [eraseDups_eq_foldl, eraseDups_eq_foldl, List.foldl_append]

/-- Repetitions add nothing. -/
theorem foldl_addNew_of_eraseDups (xs more : List α) :
    more.eraseDups.foldl addNew xs = more.foldl addNew xs := by
  rw [eraseDups_eq_foldl, addsNew_addNew.foldl_foldl]

/-- Values are collected once each, in portions or together. -/
theorem eraseDups_flatMap (f : β → List α) (bs : List β) :
    (bs.flatMap fun b => (f b).eraseDups).eraseDups = (bs.flatMap f).eraseDups := by
  simp only [eraseDups_eq_foldl]
  exact addsNew_addNew.foldl_flatMap [] f bs

end Values

end JsonShape
