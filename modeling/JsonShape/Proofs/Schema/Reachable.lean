import JsonShape.Proofs.Schema.Collect

/-!
# Reachable components are closed

The components that parameters are read against are produced from a stack on which a name may stand
more than once; the first producer that is taken counts. A component that is taken up puts all that
it mentions on the stack, so the search takes as many steps as there are mentions. Where the
producers are those of a class with finitely many names, closed under mentions, and none mentions
more components than there are names, the square of that number bounds them
(`reachable_closed`).
-/

namespace JsonShape

theorem Dict.mapValues_insert {α β : Type} (f : α → β) (d : Dict α) (name : String) (v : α) :
    (d.insert name v).mapValues f = (d.mapValues f).insert name (f v) := by
  induction d with
  | nil => rfl
  | cons e rest ih =>
    simp only [insert, mapValues, List.map_cons] at ih ⊢
    split
    · rfl
    · rw [List.map_cons, ih]

namespace Components

variable {α : Type} {force : α → Doc α} {Q : String → α → Prop} {names : List String}
  {waiting : Dict α} {finished : Dict (Doc α)} {name : String} {p : α}

/-- What holds throughout a search for the class `Q` that may meet a name more than once, with
`waiting` on the stack. -/
structure Reaching (force : α → Doc α) (Q : String → α → Prop) (waiting : Dict α)
    (finished : Dict (Doc α)) : Prop where
  /-- What waits is of the class. -/
  waiting_mem : ∀ e ∈ waiting, Q e.1 e.2
  /-- What is finished was produced by the class, and what it mentions is finished or waits. -/
  produced : ∀ name d, finished.get? name = some d → ∃ p, Q name p ∧ d = force p ∧
    ∀ n ∈ (force p).found.names, n ∈ finished.names ∨ n ∈ waiting.names

/-- The producers that one step puts on the stack. -/
def fresh (force : α → Doc α) (finished : Dict (Doc α)) (p : α) : Dict α :=
  (force p).found.filter fun e => !finished.contains e.1

theorem mem_names_fresh {n : String} : n ∈ (fresh force finished p).names ↔
    n ∈ (force p).found.names ∧ n ∉ finished.names := by
  simp only [fresh, Dict.names, List.mem_map, List.mem_filter, Bool.not_eq_true',
    Dict.contains_eq_false_iff]
  constructor
  · rintro ⟨e, ⟨he, hf⟩, rfl⟩
    exact ⟨⟨e, he, rfl⟩, hf⟩
  · rintro ⟨⟨e, he, rfl⟩, hf⟩
    exact ⟨e, ⟨he, hf⟩, rfl⟩

theorem mem_names_stack {more : Dict α} {n : String} :
    n ∈ Dict.names (more.reverse ++ waiting) ↔ n ∈ more.names ∨ n ∈ waiting.names := by
  rw [Dict.names, List.map_append, List.map_reverse, List.mem_append, List.mem_reverse]
  rfl

theorem reachableFrom_cons (h : name ∉ finished.names) (steps : Nat) :
    reachableFrom (m := Id) (fun p => pure (force p)) (steps + 1) ((name, p) :: waiting) finished =
      reachableFrom (m := Id) (fun p => pure (force p)) steps
        ((fresh force finished p).reverse ++ waiting) (finished.insert name (force p)) := by
  change (if finished.contains name then _ else _) = _
  rw [Dict.contains_eq_false_iff.2 h]
  rfl

theorem reachableFrom_cons_of_mem (h : name ∈ finished.names) (steps : Nat) :
    reachableFrom (m := Id) (fun p => pure (force p)) (steps + 1) ((name, p) :: waiting) finished =
      reachableFrom (m := Id) (fun p => pure (force p)) steps waiting finished :=
  if_pos (Dict.contains_iff.2 h)

/-- A name that is finished is passed over. -/
theorem Reaching.pass (h : Reaching force Q ((name, p) :: waiting) finished)
    (hname : name ∈ finished.names) : Reaching force Q waiting finished := by
  refine ⟨fun e he => h.waiting_mem e (.tail _ he), fun k d hk => ?_⟩
  obtain ⟨q, hq, hd, hfound⟩ := h.produced k d hk
  refine ⟨q, hq, hd, fun n hn => ?_⟩
  have hn' := hfound n hn
  rw [Dict.names_cons, List.mem_cons] at hn'
  rcases hn' with hn' | rfl | hn'
  · exact Or.inl hn'
  · exact Or.inl hname
  · exact Or.inr hn'

/-- **A step keeps what holds throughout a search**: what `p` mentions is put on the stack if it is
not finished, and `name` is finished. -/
theorem Reaching.step (hclosed : ∀ name p, Q name p → ∀ e ∈ (force p).found, Q e.1 e.2)
    (h : Reaching force Q ((name, p) :: waiting) finished) :
    Reaching force Q ((fresh force finished p).reverse ++ waiting)
      (finished.insert name (force p)) := by
  have hp : Q name p := h.waiting_mem _ (.head _)
  constructor
  · intro e he
    rcases List.mem_append.1 he with he | he
    · exact hclosed name p hp e (List.mem_filter.1 (List.mem_reverse.1 he)).1
    · exact h.waiting_mem e (.tail _ he)
  · intro k d hk
    simp only [mem_names_stack, mem_names_fresh, Dict.mem_names_insert]
    rw [Dict.get?_insert] at hk
    split at hk
    · next hkn =>
      subst hkn
      refine ⟨p, hp, (Option.some.inj hk).symm, fun n hn => ?_⟩
      tauto
    · obtain ⟨q, hq, hd, hfound⟩ := h.produced k d hk
      refine ⟨q, hq, hd, fun n hn => ?_⟩
      have hn' := hfound n hn
      rw [Dict.names_cons, List.mem_cons] at hn'
      tauto

/-- How many names of a list are not finished. -/
def remaining (names : List String) (finished : Dict (Doc α)) : Nat :=
  left names (finished.mapValues Doc.fragment)

theorem remaining_insert_lt (hname : name ∈ names) (h : name ∉ finished.names) (d : Doc α) :
    remaining names (finished.insert name d) < remaining names finished := by
  rw [remaining, Dict.mapValues_insert]
  exact left_insert_lt hname (Dict.names_mapValues Doc.fragment finished ▸ h) _

/-- Where nothing waits, what is finished is closed. -/
theorem Reaching.closed (h : Reaching force Q [] finished) :
    Closed force Q (finished.mapValues Doc.fragment) := by
  intro name f hf
  rw [Dict.get?_mapValues, Option.map_eq_some_iff] at hf
  obtain ⟨d, hd, rfl⟩ := hf
  obtain ⟨p, hp, rfl, hfound⟩ := h.produced name d hd
  rw [Dict.names_mapValues]
  exact ⟨p, hp, rfl, fun n hn => (hfound n hn).resolve_right List.not_mem_nil⟩

/-- **A search with enough steps ends**, with everything that waits finished. Each name that is not
finished may put as many producers on the stack as there are `names`. -/
theorem Reaching.reachableFrom
    (hclosed : ∀ name p, Q name p → ∀ e ∈ (force p).found, Q e.1 e.2)
    (hnames : ∀ name p, Q name p → name ∈ names)
    (hwidth : ∀ name p, Q name p → (force p).found.length ≤ names.length) {steps : Nat}
    (h : Reaching force Q waiting finished)
    (hsteps : waiting.length + names.length * remaining names finished ≤ steps) :
    ∃ docs : Dict (Doc α),
      reachableFrom (m := Id) (fun p => pure (force p)) steps waiting finished = docs ∧
      Closed force Q (docs.mapValues Doc.fragment) ∧
      ∀ n, n ∈ finished.names ∨ n ∈ waiting.names → n ∈ docs.names := by
  induction steps generalizing waiting finished with
  | zero =>
    cases waiting with
    | nil => exact ⟨finished, rfl, h.closed, fun n hn => hn.resolve_right List.not_mem_nil⟩
    | cons e rest =>
      rw [List.length_cons] at hsteps
      omega
  | succ steps ih =>
    cases waiting with
    | nil => exact ⟨finished, rfl, h.closed, fun n hn => hn.resolve_right List.not_mem_nil⟩
    | cons e rest =>
      obtain ⟨name, p⟩ := e
      rw [List.length_cons] at hsteps
      by_cases hname : name ∈ finished.names
      · obtain ⟨docs, hdocs, hcl, hmem⟩ := ih (h.pass hname) (by omega)
        refine ⟨docs, (reachableFrom_cons_of_mem hname steps).trans hdocs, hcl, fun n hn => ?_⟩
        rw [Dict.names_cons, List.mem_cons] at hn
        rcases hn with hn | rfl | hn
        · exact hmem n (Or.inl hn)
        · exact hmem _ (Or.inl hname)
        · exact hmem n (Or.inr hn)
      · have hp : Q name p := h.waiting_mem _ (.head _)
        have hlt := remaining_insert_lt (hnames name p hp) hname (force p)
        have hfresh : (fresh force finished p).length ≤ names.length :=
          (List.length_filter_le _ _).trans (hwidth name p hp)
        have hmul : names.length * remaining names (finished.insert name (force p)) +
            names.length ≤ names.length * remaining names finished :=
          Nat.mul_le_mul_left names.length hlt
        obtain ⟨docs, hdocs, hcl, hmem⟩ := ih (h.step hclosed) (by
          rw [List.length_append, List.length_reverse]
          omega)
        refine ⟨docs, (reachableFrom_cons hname steps).trans hdocs, hcl, fun n hn => hmem n ?_⟩
        rw [Dict.names_cons, List.mem_cons] at hn
        rw [Dict.mem_names_insert, mem_names_stack]
        rcases hn with hn | rfl | hn
        · exact Or.inl (Or.inl hn)
        · exact Or.inl (Or.inr rfl)
        · exact Or.inr (Or.inr hn)

/-- **Reachable components are closed**, if what is `found` at first and what is found from it
belongs to a class `Q` that is closed under mentions, has only these `names`, and mentions no more
components than there are names. -/
theorem reachable_closed (hclosed : ∀ name p, Q name p → ∀ e ∈ (force p).found, Q e.1 e.2)
    (hnames : ∀ name p, Q name p → name ∈ names)
    (hwidth : ∀ name p, Q name p → (force p).found.length ≤ names.length) {found : Dict α}
    (hfound : ∀ e ∈ found, Q e.1 e.2) {steps : Nat}
    (hsteps : found.length + names.length * names.length ≤ steps) :
    ∃ docs : Dict (Doc α), reachable (m := Id) (fun p => pure (force p)) steps found = docs ∧
      Closed force Q (docs.mapValues Doc.fragment) ∧
      ∀ n ∈ found.names, n ∈ docs.names := by
  have hstart : Reaching force Q found.reverse [] :=
    ⟨fun e he => hfound e (List.mem_reverse.1 he), fun _ _ h => nomatch h⟩
  have hremaining : remaining names ([] : Dict (Doc α)) ≤ names.length := by
    simpa [remaining, left, Dict.mapValues] using List.toFinset_card_le names
  have hmul : names.length * remaining names ([] : Dict (Doc α)) ≤ names.length * names.length :=
    Nat.mul_le_mul_left _ hremaining
  have hlimit : found.reverse.length + names.length * remaining names ([] : Dict (Doc α)) ≤ steps :=
    (Nat.add_le_add List.length_reverse.le hmul).trans hsteps
  obtain ⟨docs, hdocs, hcl, hmem⟩ := hstart.reachableFrom hclosed hnames hwidth hlimit
  refine ⟨docs, hdocs, hcl, fun n hn => hmem n (Or.inr ?_)⟩
  rwa [Dict.names, List.map_reverse, List.mem_reverse]

end Components

end JsonShape
