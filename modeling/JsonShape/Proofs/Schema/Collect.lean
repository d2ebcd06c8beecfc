import JsonShape.Proofs.Dict
import JsonShape.Schema.Component
import Mathlib.Data.Finset.Card

/-!
# Collected components are closed

Components are collected from a stack on which, and among those written down, every name stands
once. So there are at most as many steps as names, and the search ends when there are finitely many
of them (`collect_closed`): it lists every component that the roots mention, each as one of its
producers documents it, and whatever that documentation mentions is listed too.

The producers are those of a class `Q` of named producers, closed under what their documentation
mentions.
-/

namespace JsonShape

namespace Components

variable {α : Type} {force : α → Doc α} {Q : String → α → Prop}
  {waiting more : Dict α} {finished : Dict Json} {name : String} {p : α}

/-! ## Pushing -/

/-- A producer that is pushed unless its name is waiting. -/
def pushOne (waiting : Dict α) (e : String × α) : Dict α :=
  if waiting.contains e.1 then waiting else e :: waiting

theorem push_eq (waiting more : Dict α) : push waiting more = more.foldl pushOne waiting := rfl

theorem mem_names_pushOne {e : String × α} :
    name ∈ (pushOne waiting e).names ↔ name ∈ waiting.names ∨ name = e.1 := by
  unfold pushOne
  split
  · next h => exact ⟨Or.inl, fun hn => hn.elim id fun hn => hn ▸ Dict.contains_iff.1 h⟩
  · rw [Dict.names_cons, List.mem_cons, or_comm]

theorem mem_names_push :
    name ∈ (push waiting more).names ↔ name ∈ waiting.names ∨ name ∈ more.names := by
  rw [push_eq]
  induction more generalizing waiting with
  | nil => simp
  | cons e rest ih =>
    rw [List.foldl_cons, ih, mem_names_pushOne, Dict.names_cons, List.mem_cons, or_assoc]

theorem mem_of_mem_push {e : String × α} (h : e ∈ push waiting more) : e ∈ waiting ∨ e ∈ more := by
  rw [push_eq] at h
  induction more generalizing waiting with
  | nil => exact Or.inl h
  | cons f rest ih =>
    rcases ih h with h | h
    · unfold pushOne at h
      split at h
      · exact Or.inl h
      · exact (List.mem_cons.1 h).elim (fun h => Or.inr (h ▸ .head _)) Or.inl
    · exact Or.inr (.tail _ h)

theorem nodup_names_push (h : waiting.names.Nodup) (more : Dict α) :
    (push waiting more).names.Nodup := by
  rw [push_eq]
  induction more generalizing waiting with
  | nil => exact h
  | cons e rest ih =>
    refine ih ?_
    unfold pushOne
    split
    · exact h
    · next hc => exact List.nodup_cons.2 ⟨fun hm => hc (Dict.contains_iff.2 hm), h⟩

theorem foldl_push {roots : List (Doc α)} :
    roots.foldl (fun acc d => push acc d.found) waiting =
      push waiting (roots.flatMap Doc.found) := by
  induction roots generalizing waiting with
  | nil => rfl
  | cons d rest ih =>
    rw [List.foldl_cons, ih, push_eq, push_eq, push_eq, List.flatMap_cons, List.foldl_append]

/-- Producers of new names that are distinct are put on the stack one by one. -/
theorem push_of_nodup (h : (Dict.names (more ++ waiting)).Nodup) :
    push waiting more = more.reverse ++ waiting := by
  rw [push_eq]
  induction more generalizing waiting with
  | nil => rfl
  | cons e rest ih =>
    have hnames : (Dict.names (rest ++ e :: waiting)).Nodup :=
      ((List.perm_middle.map Prod.fst).nodup_iff).2 h
    have hnew : waiting.contains e.1 = false := by
      rw [Dict.contains_eq_false_iff]
      rw [List.cons_append, Dict.names_cons, List.nodup_cons, Dict.names, List.map_append] at h
      exact fun hmem => h.1 (List.mem_append_right _ hmem)
    have hone : pushOne waiting e = e :: waiting := by
      rw [pushOne, hnew, if_neg Bool.false_ne_true]
    rw [List.foldl_cons, hone, ih hnames, List.reverse_cons, List.append_assoc,
      List.singleton_append]

/-- Producers whose names are waiting change nothing. -/
theorem push_of_subset (h : more.names ⊆ waiting.names) : push waiting more = waiting := by
  rw [push_eq]
  induction more with
  | nil => rfl
  | cons e rest ih =>
    obtain ⟨he, hrest⟩ := List.cons_subset.1 h
    rw [List.foldl_cons, pushOne, if_pos (Dict.contains_iff.2 he), ih hrest]

/-! ## The search -/

/-- What holds throughout a search for the class `Q`, where `waiting` is the stack and `finished` is
written down. -/
structure Searching (force : α → Doc α) (Q : String → α → Prop) (waiting : Dict α)
    (finished : Dict Json) : Prop where
  /-- What waits is of the class. -/
  waiting_mem : ∀ e ∈ waiting, Q e.1 e.2
  /-- What is written down is documented by a producer of the class, and what that mentions is
  written down or waits. -/
  documented : ∀ name f, finished.get? name = some f → ∃ p, Q name p ∧ f = (force p).fragment ∧
    ∀ n ∈ (force p).found.names, n ∈ finished.names ∨ n ∈ waiting.names
  nodup : waiting.names.Nodup
  /-- What waits is not written down. -/
  disjoint : ∀ n ∈ waiting.names, n ∉ finished.names

/-- The producers that one step pushes. -/
def pushed (force : α → Doc α) (finished : Dict Json) (name : String) (p : α) : Dict α :=
  (force p).found.filter fun e => !finished.contains e.1 && e.1 ≠ name

theorem mem_pushed {e : String × α} : e ∈ pushed force finished name p ↔
    e ∈ (force p).found ∧ e.1 ∉ finished.names ∧ e.1 ≠ name := by
  simp [pushed, ← Dict.contains_iff]

theorem mem_names_pushed {n : String} : n ∈ (pushed force finished name p).names ↔
    n ∈ (force p).found.names ∧ n ∉ finished.names ∧ n ≠ name := by
  simp only [Dict.names, List.mem_map, mem_pushed]
  constructor
  · rintro ⟨e, ⟨he, hf, hne⟩, rfl⟩
    exact ⟨⟨e, he, rfl⟩, hf, hne⟩
  · rintro ⟨⟨e, he, rfl⟩, hf, hne⟩
    exact ⟨e, ⟨he, hf, hne⟩, rfl⟩

/-- A component that is not written down is produced and written down, and what it mentions is
`pushed`. -/
theorem collectFrom_cons (h : name ∉ finished.names) (steps : Nat) :
    collectFrom (m := Id) (fun p => pure (force p)) (steps + 1) ((name, p) :: waiting) finished =
      collectFrom (m := Id) (fun p => pure (force p)) steps
        (push waiting (pushed force finished name p))
        (finished.insert name (force p).fragment) := by
  change (if finished.contains name then _ else _) = _
  rw [Dict.contains_eq_false_iff.2 h]
  rfl

/-- **A step keeps what holds throughout a search**, if the class `Q` is closed under mentions. -/
theorem Searching.step (hclosed : ∀ name p, Q name p → ∀ e ∈ (force p).found, Q e.1 e.2)
    (h : Searching force Q ((name, p) :: waiting) finished) :
    Searching force Q (push waiting (pushed force finished name p))
      (finished.insert name (force p).fragment) := by
  have hp : Q name p := h.waiting_mem _ (.head _)
  obtain ⟨hname, hnodup⟩ := List.nodup_cons.1 h.nodup
  constructor
  · intro e he
    rcases mem_of_mem_push he with he | he
    · exact h.waiting_mem e (.tail _ he)
    · exact hclosed name p hp e (mem_pushed.1 he).1
  · intro k f hk
    rw [Dict.get?_insert] at hk
    split at hk
    · next hkn =>
      subst hkn
      refine ⟨p, hp, (Option.some.inj hk).symm, fun n hn => ?_⟩
      rw [Dict.mem_names_insert, mem_names_push, mem_names_pushed]
      tauto
    · obtain ⟨q, hq, hf, hfound⟩ := h.documented k f hk
      refine ⟨q, hq, hf, fun n hn => ?_⟩
      have hn' := hfound n hn
      rw [Dict.names_cons, List.mem_cons] at hn'
      rw [Dict.mem_names_insert, mem_names_push]
      tauto
  · exact nodup_names_push hnodup _
  · intro n hn
    rw [mem_names_push, mem_names_pushed] at hn
    rw [Dict.mem_names_insert]
    have hdisjoint := h.disjoint n
    rw [Dict.names_cons, List.mem_cons] at hdisjoint
    rcases hn with hn | ⟨-, hn, hne⟩
    · have hne : n ≠ name := fun heq => hname (heq ▸ hn)
      tauto
    · tauto

/-- The result of a search: each component is documented by a producer of the class `Q`, and all
that it mentions is written down. -/
def Closed (force : α → Doc α) (Q : String → α → Prop) (components : Dict Json) : Prop :=
  ∀ name f, components.get? name = some f → ∃ p, Q name p ∧ f = (force p).fragment ∧
    ∀ n ∈ (force p).found.names, n ∈ components.names

/-- Where nothing waits, what is written down is closed. -/
theorem Searching.closed (h : Searching force Q [] finished) : Closed force Q finished := by
  intro name f hf
  obtain ⟨p, hp, hfp, hfound⟩ := h.documented name f hf
  exact ⟨p, hp, hfp, fun n hn => (hfound n hn).resolve_right List.not_mem_nil⟩

/-- How many of `names` are not written down. Each step makes it smaller. -/
def left (names : List String) (finished : Dict Json) : Nat :=
  (names.toFinset \ finished.names.toFinset).card

theorem left_insert_lt {names : List String} (hname : name ∈ names) (h : name ∉ finished.names)
    (f : Json) : left names (finished.insert name f) < left names finished := by
  refine Finset.card_lt_card ⟨fun n hn => ?_, fun hsub => ?_⟩
  · simp only [Finset.mem_sdiff, List.mem_toFinset, Dict.mem_names_insert, not_or] at hn ⊢
    exact ⟨hn.1, hn.2.1⟩
  · have hmem : name ∈ names.toFinset \ finished.names.toFinset := by simp [hname, h]
    have := hsub hmem
    simp [Dict.mem_names_insert] at this

/-- **A search with a step for each name ends**, with everything that waits written down: `steps`
need not exceed what is `left` of `names`. -/
theorem Searching.collectFrom {names : List String}
    (hclosed : ∀ name p, Q name p → ∀ e ∈ (force p).found, Q e.1 e.2)
    (hnames : ∀ name p, Q name p → name ∈ names) {steps : Nat}
    (h : Searching force Q waiting finished) (hsteps : left names finished ≤ steps) :
    ∃ components, collectFrom (m := Id) (fun p => pure (force p)) steps waiting finished =
        some components ∧
      Closed force Q components ∧
      ∀ n, n ∈ finished.names ∨ n ∈ waiting.names → n ∈ components.names := by
  induction steps generalizing waiting finished with
  | zero =>
    cases waiting with
    | nil =>
      exact ⟨finished, rfl, h.closed, fun n hn => hn.resolve_right List.not_mem_nil⟩
    | cons e rest =>
      have hlt := left_insert_lt (hnames _ _ (h.waiting_mem e (.head _)))
        (h.disjoint e.1 (.head _)) .null
      omega
  | succ steps ih =>
    cases waiting with
    | nil =>
      exact ⟨finished, rfl, h.closed, fun n hn => hn.resolve_right List.not_mem_nil⟩
    | cons e rest =>
      obtain ⟨name, p⟩ := e
      have hname : name ∉ finished.names := h.disjoint name (.head _)
      have hlt := left_insert_lt (hnames name p (h.waiting_mem _ (.head _))) hname
        (force p).fragment
      obtain ⟨components, hc, hcl, hmem⟩ := ih (h.step hclosed) (by omega)
      refine ⟨components, ?_, hcl, fun n hn => hmem n ?_⟩
      · rw [← hc]
        exact collectFrom_cons hname steps
      · rw [Dict.names_cons, List.mem_cons] at hn
        rw [Dict.mem_names_insert, mem_names_push]
        tauto

/-- Every name is written down once. -/
theorem nodup_names_collectFrom {steps : Nat} {components : Dict Json}
    (hfinished : finished.names.Nodup)
    (h : collectFrom (m := Id) (fun p => pure (force p)) steps waiting finished =
      some components) : components.names.Nodup := by
  induction steps generalizing waiting finished with
  | zero =>
    cases waiting with
    | nil => exact Option.some.inj h ▸ hfinished
    | cons e rest => cases h
  | succ steps ih =>
    cases waiting with
    | nil => exact Option.some.inj h ▸ hfinished
    | cons e rest =>
      obtain ⟨name, p⟩ := e
      unfold collectFrom at h
      split at h
      · exact ih hfinished h
      · exact ih (Dict.nodup_names_insert hfinished name (force p).fragment) h

/-- What `collect` answers is sorted by name. -/
theorem pairwise_lt_collect {steps : Nat} {roots : List (Doc α)} {components : Dict Json}
    (h : collect (m := Id) (fun p => pure (force p)) steps roots = some components) :
    components.Pairwise fun e f => e.1 < f.1 := by
  obtain ⟨cs, hcs, rfl⟩ := Option.map_eq_some_iff.1 h
  exact Dict.pairwise_lt_sortByName (nodup_names_collectFrom (by simp) hcs)

/-- Collecting is a search from what the roots mention. -/
theorem collect_eq (steps : Nat) (roots : List (Doc α)) :
    collect (m := Id) (fun p => pure (force p)) steps roots =
      (collectFrom (m := Id) (fun p => pure (force p)) steps (push [] (roots.flatMap Doc.found))
        []).map Dict.sortByName := by
  rw [← foldl_push]
  rfl

/-- **Collected components are closed**, if the `roots` mention producers of a class `Q` that is
closed under mentions and has no more names than there are steps. -/
theorem collect_closed {names : List String}
    (hclosed : ∀ name p, Q name p → ∀ e ∈ (force p).found, Q e.1 e.2)
    (hnames : ∀ name p, Q name p → name ∈ names) {steps : Nat} (hsteps : names.length ≤ steps)
    {roots : List (Doc α)} (hroots : ∀ d ∈ roots, ∀ e ∈ d.found, Q e.1 e.2) :
    ∃ components, collect (m := Id) (fun p => pure (force p)) steps roots = some components ∧
      Closed force Q components ∧
      ∀ d ∈ roots, ∀ n ∈ d.found.names, n ∈ components.names := by
  have hstart : Searching force Q (push [] (roots.flatMap Doc.found)) [] := by
    refine ⟨fun e he => ?_, by simp, nodup_names_push (by simp) _, by simp⟩
    obtain ⟨d, hd, he⟩ := List.mem_flatMap.1 ((mem_of_mem_push he).resolve_left List.not_mem_nil)
    exact hroots d hd e he
  have hleft : left names [] ≤ steps := by
    refine le_trans ?_ hsteps
    simpa [left] using List.toFinset_card_le names
  obtain ⟨components, hc, hcl, hmem⟩ := hstart.collectFrom hclosed hnames hleft
  have hget : ∀ n, components.sortByName.get? n = components.get? n := Dict.get?_sortByName _
  have hsame : ∀ n, n ∈ components.sortByName.names ↔ n ∈ components.names := fun _ =>
    Dict.mem_names_sortByName
  refine ⟨components.sortByName, ?_, fun name f hf => ?_, fun d hd n hn => ?_⟩
  · rw [collect_eq, hc]
    rfl
  · obtain ⟨p, hp, hfp, hfound⟩ := hcl name f (hget name ▸ hf)
    exact ⟨p, hp, hfp, fun n hn => (hsame n).2 (hfound n hn)⟩
  · refine (hsame n).2 (hmem n (Or.inr (mem_names_push.2 (Or.inr ?_))))
    obtain ⟨e, he, rfl⟩ := List.mem_map.1 hn
    exact List.mem_map.2 ⟨e, List.mem_flatMap.2 ⟨d, hd, he⟩, rfl⟩

end Components

end JsonShape
