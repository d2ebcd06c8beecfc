import JsonShape.Proofs.Output.Components
import JsonShape.Proofs.Output.Limit
import Mathlib.Data.Fintype.Prod

/-!
# Views without a limit

A view of a definition is looked up only so often, and the limit is great enough. As soon as a limit
finds the default view of an output it has found all that there is: greater limits answer alike
(`viewAt_settled`), and without a default view there is no view at all (`isSome_base_of_isSome`). So
the definitions whose default view is found tell whether a limit is great enough. They grow with the
limit, and from the first one on that adds none, nothing is added any more.

* `viewOf?_defer`: a definition has the views of what it is resolved to.
-/

namespace JsonShape

namespace Output

open Input (Le)

variable {defs : Dict Output} {o q : Output} {view name : String} {base : Bool}
  {limit limit' : Nat}

/-! ## The default view -/

/-- An output without a default view has no view. -/
theorem isSome_viewWith_base {selector : Selector}
    (hselector : ∀ name base view, (selector name base view).isSome →
      (selector name base baseView).isSome)
    (h : (viewWith selector o view).isSome) : (viewWith selector o baseView).isSome := by
  induction o with
  | text _ | number | integer | boolean | null | object _ _ | cond _ _ _ _ _ => cases h
  | merge _ child _ ih => exact ih h
  | list a ih | optional a ih | viaMap a _ ih =>
    rw [viewWith, Option.isSome_map] at h ⊢
    exact ih h
  | described a _ ih | referenced a _ ih => exact ih h
  | viewed earlier base later => simp [viewWith]
  | chain base views => simp [viewWith]
  | defer name base => exact hselector name base view h

theorem isSome_base_of_isSome (h : (viewAt defs limit o view).isSome) :
    (viewAt defs limit o baseView).isSome := by
  induction limit generalizing o view with
  | zero =>
    rw [viewAt_eq] at h ⊢
    exact isSome_viewWith_base (fun _ _ _ hnone => absurd hnone Bool.false_ne_true) h
  | succ limit ih =>
    rw [viewAt_eq] at h ⊢
    refine isSome_viewWith_base (fun name base view h => ?_) h
    rw [viewLookup_succ] at h ⊢
    cases hd : defs.get? name with
    | none => simp [hd] at h
    | some d =>
      rw [hd, Option.bind_some] at h
      exact ih h

/-! ## Greater limits -/

/-- What definitions that have a default view answer settles what shapes that have one answer. -/
theorem viewWith_settled {selector selector' : Selector}
    (hselector : ∀ name base view, (selector name base baseView).isSome →
      selector' name base view = selector name base view)
    (h : (viewWith selector o baseView).isSome) :
    viewWith selector' o view = viewWith selector o view := by
  induction o with
  | text _ | number | integer | boolean | null | object _ _ | cond _ _ _ _ _ => rfl
  | merge _ child _ ih => exact ih h
  | list a ih | optional a ih | viaMap a _ ih =>
    rw [viewWith, Option.isSome_map] at h
    rw [viewWith, viewWith, ih h]
  | described a _ ih | referenced a _ ih => exact ih h
  | viewed earlier base later | chain base views => rfl
  | defer name base => exact hselector name base view h

/-- A definition or its default view, looked up within a limit. -/
def resolveAt (defs : Dict Output) (limit : Nat) (base : Bool) (d : Output) : Output :=
  if base then (viewAt defs limit d baseView).getD d else d

theorem viewLookup_eq_bind (limit : Nat) (name : String) (base : Bool) (view : String) :
    viewLookup defs (limit + 1) name base view = (defs.get? name).bind fun d =>
      viewAt defs limit (resolveAt defs limit base d) view := rfl

/-- What has a default view is not resolved otherwise within a limit that agrees on those. -/
theorem resolveAt_congr (h : (viewAt defs limit (resolveAt defs limit base o) baseView).isSome)
    (hagree : (viewAt defs limit o baseView).isSome →
      viewAt defs limit' o baseView = viewAt defs limit o baseView) :
    resolveAt defs limit' base o = resolveAt defs limit base o := by
  cases base with
  | false => rfl
  | true =>
    cases hbase : viewAt defs limit o baseView with
    | some b => simp only [resolveAt, if_true, hagree (by rw [hbase]; rfl)]
    | none =>
      -- without its default view the definition has no view
      simp [resolveAt, hbase] at h

/-- **A limit that finds the default view is great enough**: no greater one selects anything else,
under any name. -/
theorem viewAt_settled (h : (viewAt defs limit o baseView).isSome) (hle : limit ≤ limit') :
    viewAt defs limit' o view = viewAt defs limit o view := by
  induction limit generalizing limit' o view with
  | zero =>
    rw [viewAt_eq] at h
    rw [viewAt_eq, viewAt_eq]
    exact viewWith_settled (fun _ _ _ hnone => absurd hnone Bool.false_ne_true) h
  | succ limit ih =>
    obtain ⟨limit', rfl⟩ := Nat.exists_eq_add_of_lt hle
    rw [viewAt_eq] at h
    rw [viewAt_eq, viewAt_eq]
    refine viewWith_settled (fun name base view h => ?_) h
    rw [viewLookup_eq_bind] at h ⊢
    rw [viewLookup_eq_bind]
    cases hd : defs.get? name with
    | none => rfl
    | some d =>
      rw [hd, Option.bind_some] at h
      have hle' : limit ≤ limit + limit' := by omega
      rw [Option.bind_some, Option.bind_some, resolveAt_congr h fun hb => ih hb hle', ih h hle']

theorem viewAt_le (hle : limit ≤ limit') (o : Output) (view : String) :
    Le (viewAt defs limit o view) (viewAt defs limit' o view) := by
  intro q hq
  rw [viewAt_settled (isSome_base_of_isSome (by rw [hq]; rfl)) hle, hq]

/-! ## The limit -/

/-- The definitions, whole or by their default view, whose default view is found within `limit`. -/
def offering (defs : Dict Output) (limit : Nat) : Finset (String × Bool) :=
  (defs.names.toFinset ×ˢ Finset.univ).filter fun e =>
    (viewLookup defs limit e.1 e.2 baseView).isSome

theorem mem_offering {e : String × Bool} :
    e ∈ offering defs limit ↔ (viewLookup defs limit e.1 e.2 baseView).isSome := by
  rw [offering, Finset.mem_filter, Finset.mem_product, and_iff_right_iff_imp]
  refine fun h => ⟨List.mem_toFinset.2 (Dict.contains_iff.1 ?_), Finset.mem_univ _⟩
  cases limit with
  | zero => cases h
  | succ limit =>
    rw [viewLookup_succ] at h
    cases hd : defs.get? e.1 with
    | none => simp [hd] at h
    | some d => simp [Dict.contains, hd]

theorem offering_mono (hle : limit ≤ limit') : offering defs limit ⊆ offering defs limit' := by
  intro e he
  rw [mem_offering, Option.isSome_iff_exists] at he ⊢
  obtain ⟨q, hq⟩ := he
  exact ⟨q, viewAt_le hle _ _ q hq⟩

theorem card_offering_le (limit : Nat) : (offering defs limit).card ≤ 2 * defs.length :=
  calc (offering defs limit).card
    _ ≤ (defs.names.toFinset ×ˢ (Finset.univ : Finset Bool)).card := Finset.card_filter_le _ _
    _ = defs.names.toFinset.card * 2 := Finset.card_product _ _
    _ ≤ defs.names.length * 2 := Nat.mul_le_mul_right 2 (List.toFinset_card_le _)
    _ = 2 * defs.length := by rw [Dict.names, List.length_map, Nat.mul_comm]

/-- Where a greater limit finds no more definitions, it finds no more views. -/
theorem viewAt_eq_of_offering (hle : limit ≤ limit')
    (h : offering defs limit' ⊆ offering defs limit) (o : Output) (view : String) :
    viewAt defs limit' o view = viewAt defs limit o view := by
  by_cases hbase : (viewAt defs limit' o baseView).isSome
  · refine viewAt_settled ?_ hle
    rw [viewAt_eq] at hbase ⊢
    rwa [viewWith_settled (fun name base view hb => ?_) hbase]
    have hoffered := mem_offering.1 (h (mem_offering (e := (name, base)).2 hb))
    exact (viewAt_settled hoffered hle).symm
  · have hnone : ∀ limit'' ≤ limit', viewAt defs limit'' o view = none := fun limit'' hle => by
      rw [← Option.not_isSome_iff_eq_none]
      intro hsome
      refine hbase ?_
      rw [viewAt_settled (isSome_base_of_isSome hsome) hle]
      exact isSome_base_of_isSome hsome
    rw [hnone limit hle, hnone limit' le_rfl]

/-- A limit that adds no definition is followed by limits that add none. -/
theorem card_offering_succ (n : Nat)
    (hcard : (offering defs n).card = (offering defs (n + 1)).card) :
    (offering defs (n + 1)).card = (offering defs (n + 2)).card := by
  have heq : offering defs n = offering defs (n + 1) :=
    Finset.eq_of_subset_of_card_le (offering_mono n.le_succ) hcard.ge
  have hview := viewAt_eq_of_offering n.le_succ heq.ge
  refine congrArg Finset.card (Finset.ext fun e => ?_)
  have hresolve : ∀ d, resolveAt defs (n + 1) e.2 d = resolveAt defs n e.2 d := fun d => by
    rw [resolveAt, resolveAt, hview]
  rw [mem_offering, mem_offering, viewLookup_eq_bind, viewLookup_eq_bind]
  simp only [hresolve, hview]

/-- **As many lookups as definitions, whole and by their default view, find all views**: from
`2 * defs.length` on, the limit does not count. -/
theorem viewAt_eq_of_le (hle : 2 * defs.length ≤ limit) (hle' : limit ≤ limit') (o : Output)
    (view : String) : viewAt defs limit' o view = viewAt defs limit o view := by
  have hmono : Monotone fun n => (offering defs n).card := fun a b hab =>
    Finset.card_le_card (offering_mono hab)
  have hcard : ∀ n, 2 * defs.length ≤ n →
      (offering defs (2 * defs.length)).card = (offering defs n).card := fun n hn =>
    (Nat.stabilises_of_monotone hmono card_offering_le card_offering_succ hn).symm
  refine viewAt_eq_of_offering hle' ?_ o view
  exact (Finset.eq_of_subset_of_card_le (offering_mono hle')
    ((hcard limit' (hle.trans hle')).symm.trans (hcard limit hle)).le).ge

theorem lookupLimit_le : 2 * defs.length ≤ lookupLimit defs := by
  rw [lookupLimit]
  omega

/-- Within the limit, what has a default view is resolved as it is without one. -/
theorem resolveAt_eq_of_isSome (hle : limit ≤ lookupLimit defs)
    (h : (viewAt defs limit (resolveAt defs limit base o) baseView).isSome) :
    resolveAt defs (lookupLimit defs) base o = resolveAt defs limit base o :=
  resolveAt_congr h fun hb => viewAt_settled hb hle

theorem resolve?_eq (name : String) (base : Bool) :
    resolve? defs name base = (defs.get? name).map (resolveAt defs (lookupLimit defs) base) := rfl

/-! ## Views -/

/-- **A definition has the views of what it is resolved to**, although the lookup takes one of those
that are granted. -/
theorem viewOf?_defer (name : String) (base : Bool) (view : String) :
    viewOf? defs (.defer name base) view =
      (resolve? defs name base).bind fun o => viewOf? defs o view := by
  have hmore : viewOf? defs (.defer name base) view =
      viewLookup defs (lookupLimit defs + 1) name base view :=
    (viewAt_eq_of_le lookupLimit_le (Nat.le_succ _) _ view).symm
  rw [hmore, viewLookup_eq_bind, resolve?_eq, Option.bind_map]
  rfl

end Output

end JsonShape
