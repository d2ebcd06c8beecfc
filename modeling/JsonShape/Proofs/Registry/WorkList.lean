import JsonShape.Proofs.TypeDef.References
import JsonShape.Registry.Compile
import Mathlib.Data.List.TakeWhile
import Mathlib.Tactic.Tauto

/-!
# The work list of a compilation

A compilation pops types off a stack, documents them and pushes what they mention. The types that
are documented or waiting are those the compiler *knows*. Every turn keeps (`Running.of_turn`):

* every fragment is that of the type's own definition;
* every type that a documented type mentions is known;
* every known type was documented before or is reachable from the type being added.

When nothing waits any more, the documented types are closed under mentions, so they are those from
before and those reachable from the added type (`add_cases`). By induction over a history of
additions, failed ones included, the documented types are those reachable from the types added
(`isFinished_addAll`). `worklist` states all of it together.
-/

namespace JsonShape

namespace Compiler

variable {registry : Registry} {c c' before : Compiler} {root name k : String}

/-! ## Known types -/

/-- The type `name` is documented or waiting. -/
def Knows (c : Compiler) (name : String) : Prop := c.isFinished name ∨ name ∈ c.pending

theorem isFinished_iff : c.isFinished k ↔ ∃ f, c.finished.get? k = some f := by
  simp [isFinished, Dict.contains, Option.isSome_iff_exists]

theorem knows_enqueue : (c.enqueue name).Knows k ↔ c.Knows k ∨ k = name := by
  unfold enqueue
  split
  · next h =>
    refine ⟨Or.inl, fun hk => hk.elim id ?_⟩
    rintro rfl
    simpa [Knows] using h
  · simp only [Knows, isFinished, List.mem_cons]
    rw [or_comm (a := k = name), or_assoc]

theorem knows_foldl_enqueue {names : List String} :
    (names.foldl enqueue c).Knows k ↔ c.Knows k ∨ k ∈ names := by
  induction names generalizing c with
  | nil => simp
  | cons n rest ih => rw [List.foldl_cons, ih, knows_enqueue, or_assoc, List.mem_cons]

theorem knows_finish {f : Json} : (c.finish name f).Knows k ↔ c.Knows k ∨ k = name := by
  simp only [Knows, isFinished_finish, Bool.or_eq_true, decide_eq_true_eq, eq_comm (a := name)]
  rw [or_comm (a := k = name), or_assoc, or_comm (a := k = name), or_assoc]
  rfl

/-- What is popped before the next type to document is documented, so it stays known. -/
theorem knows_iff_of_dropWhile {rest : List String}
    (h : c.pending.dropWhile c.isFinished = name :: rest) :
    c.Knows k ↔ c.isFinished k ∨ k = name ∨ k ∈ rest := by
  have hpop : ∀ n ∈ c.pending.takeWhile c.isFinished, c.isFinished n := fun n hn =>
    List.mem_takeWhile_imp hn
  rw [Knows, ← List.takeWhile_append_dropWhile (p := c.isFinished) (l := c.pending), h,
    List.mem_append, List.mem_cons]
  exact ⟨fun hk => hk.elim Or.inl fun hk => hk.elim (fun hp => Or.inl (hpop k hp)) Or.inr,
    fun hk => hk.elim Or.inl fun hk => Or.inr (Or.inr hk)⟩

/-! ## What holds throughout -/

/-- What holds of a compiler at any time, between turns included. -/
structure Sound (registry : Registry) (c : Compiler) : Prop where
  /-- Every fragment is that of the type's own definition. -/
  own : ∀ k f, c.finished.get? k = some f →
    ∃ d, registry.get? k = some d ∧ f = fragment (d.rootTree k).node
  /-- Every type is documented once. -/
  nodup : c.finished.names.Nodup
  /-- What a documented type mentions is known. -/
  closed : ∀ k m, c.isFinished k → registry.Mentions k m → c.Knows m

/-- What holds while `root` is being added to a compiler. -/
structure Running (registry : Registry) (root : String) (before c : Compiler) : Prop
    extends Sound registry c where
  kept : ∀ k, before.isFinished k → c.isFinished k
  root_known : c.Knows root
  reached : ∀ k, c.Knows k → before.isFinished k ∨ registry.Reaches root k

/-- What holds between additions: beside `Sound`, nothing waits. -/
structure Settled (registry : Registry) (c : Compiler) : Prop extends Sound registry c where
  pending : c.pending = []

theorem settled_new (registry : Registry) : Settled registry new where
  own := by simp [new]
  nodup := by simp [new]
  closed := by simp [new, isFinished, Dict.contains]
  pending := rfl

/-- Where nothing waits, the known types are the documented ones. -/
theorem knows_iff_of_pending (h : c.pending = []) : c.Knows k ↔ c.isFinished k := by
  simp [Knows, h]

/-- Between additions the documented types are closed under reachability. -/
theorem Settled.isFinished_of_reaches (h : Settled registry c) (hk : c.isFinished k)
    (hr : registry.Reaches k name) : c.isFinished name := by
  induction hr with
  | refl => exact hk
  | tail _ hm ih => exact (knows_iff_of_pending h.pending).1 (h.closed _ _ ih hm)

/-- The fragment of a documented type is that of its definition. -/
theorem Settled.get?_finished_iff (h : Settled registry c) {f : Json} :
    c.finished.get? k = some f ↔
      c.isFinished k ∧ ∃ d, registry.get? k = some d ∧ f = fragment (d.rootTree k).node := by
  constructor
  · exact fun hf => ⟨isFinished_iff.2 ⟨f, hf⟩, h.own k f hf⟩
  · rintro ⟨hk, d, hd, rfl⟩
    obtain ⟨f, hf⟩ := isFinished_iff.1 hk
    obtain ⟨d', hd', rfl⟩ := h.own k f hf
    rw [hf, Option.some.inj (hd.symm.trans hd')]

theorem Settled.running (h : Settled registry c) (root : String) :
    Running registry root c (c.enqueue root) where
  own := by rw [finished_enqueue]; exact h.own
  nodup := by rw [finished_enqueue]; exact h.nodup
  closed k m hk hm := by
    rw [isFinished, finished_enqueue] at hk
    exact knows_enqueue.2 (Or.inl (h.closed k m hk hm))
  kept k hk := by rwa [isFinished, finished_enqueue]
  root_known := knows_enqueue.2 (Or.inr rfl)
  reached k hk := (knows_enqueue.1 hk).elim
    (fun hk => Or.inl ((knows_iff_of_pending h.pending).1 hk))
    (fun hk => Or.inr (hk ▸ Relation.ReflTransGen.refl))

/-! ## Turns -/

/-- What a `turn` does to the documented and to the known types. -/
theorem exists_of_turn (ht : turn registry c = some (.ok (), c')) :
    ∃ name d, registry.get? name = some d ∧ c.Knows name ∧ c.isFinished name = false ∧
      c'.finished = c.finished.insert name (fragment (d.rootTree name).node) ∧
      ∀ k, c'.Knows k ↔ c.Knows k ∨ k ∈ (d.rootTree name).found := by
  obtain ⟨name, rest, d, hp, hf, hd, rfl⟩ := turn_cases ht
  refine ⟨name, d, hd, (knows_iff_of_dropWhile hp).2 (Or.inr (Or.inl rfl)), hf, ?_, fun k => ?_⟩
  · simp only [finish, finished_foldl_enqueue]
  · rw [knows_finish, knows_foldl_enqueue, knows_iff_of_dropWhile hp]
    simp only [Knows, isFinished]
    tauto

theorem isFinished_of_finished_eq {f : Json} (h : c'.finished = c.finished.insert name f) :
    c'.isFinished k ↔ name = k ∨ c.isFinished k := by
  have hk : c'.isFinished k = (c.finish name f).isFinished k := by
    rw [isFinished, isFinished, h, finish]
  rw [hk, isFinished_finish, Bool.or_eq_true, decide_eq_true_eq]

/-- **A turn keeps what holds while a type is being added**, which is what `Running` says of `root`
and of the compiler `before`. -/
theorem Running.of_turn (h : Running registry root before c)
    (ht : turn registry c = some (.ok (), c')) : Running registry root before c' := by
  obtain ⟨name, d, hd, hname, hf, hfin, hknows⟩ := exists_of_turn ht
  have hreach : registry.Reaches root name := (h.reached name hname).resolve_left fun hn => by
    simpa [hf] using h.kept name hn
  constructor
  · constructor
    · intro k f hk
      rw [hfin, Dict.get?_insert] at hk
      split at hk
      · next hkn => exact hkn ▸ ⟨d, hd, (Option.some.inj hk).symm⟩
      · exact h.own k f hk
    · rw [hfin]
      exact Dict.nodup_names_insert h.nodup name _
    · intro k m hk hm
      rw [hknows]
      rcases (isFinished_of_finished_eq hfin).1 hk with rfl | hk
      · obtain ⟨d', hd', hm⟩ := hm
        obtain rfl : d' = d := Option.some.inj (hd'.symm.trans hd)
        by_cases hmn : m = name
        · exact Or.inl (hmn ▸ hname)
        · exact Or.inr (TypeDef.mem_found_rootTree.2 ⟨hm, hmn⟩)
      · exact Or.inl (h.closed k m hk hm)
  · exact fun k hk => (isFinished_of_finished_eq hfin).2 (Or.inr (h.kept k hk))
  · exact (hknows root).2 (Or.inl h.root_known)
  · intro k hk
    rcases (hknows k).1 hk with hk | hk
    · exact h.reached k hk
    · exact Or.inr (hreach.tail ⟨d, hd, (TypeDef.mem_found_rootTree.1 hk).1⟩)

/-- A turn fails only at a type that is not in the registry. -/
theorem Running.unknown_of_turn (h : Running registry root before c) {e : DefinitionError}
    (ht : turn registry c = some (.error e, c')) :
    ∃ m, registry.Reaches root m ∧ registry.get? m = none := by
  unfold turn at ht
  split at ht
  · simp at ht
  · next name rest hp =>
    have hf : c.isFinished name = false := by
      have := List.head?_dropWhile_not c.isFinished c.pending
      simpa [hp] using this
    have hname : c.Knows name := (knows_iff_of_dropWhile hp).2 (Or.inr (Or.inl rfl))
    have hreach : registry.Reaches root name := (h.reached name hname).resolve_left fun hn => by
      simpa [hf] using h.kept name hn
    refine ⟨name, hreach, ?_⟩
    cases hd : registry.get? name with
    | none => rfl
    | some d => simp [compileOne, parse, hd] at ht

/-- Turns cannot go on for ever. -/
theorem wellFounded_turn (registry : Registry) :
    WellFounded fun c' c : Compiler => turn registry c = some (.ok (), c') :=
  Subrelation.wf (fun h => unfinished_turn_lt h) (measure (unfinished registry)).wf

/-! ## Runs -/

/-- A run goes on with what a turn leaves. -/
theorem run_of_turn (ht : turn registry c = some (.ok (), c')) :
    run registry c = run registry c' := by
  rw [run, ht]

/-- A run ends where no type waits that is not documented. -/
theorem run_of_idle (ht : turn registry c = none) :
    run registry c = (.ok (), { c with pending := [] }) := by
  rw [run, ht]

/-- A run ends with nothing waiting, or at a type that is not in the registry. -/
theorem Running.run_cases (h : Running registry root before c) :
    (∃ c', run registry c = (.ok (), c') ∧ Running registry root before c' ∧ c'.pending = []) ∨
      ∃ e c' m, run registry c = (.error e, c') ∧ registry.Reaches root m ∧
        registry.get? m = none := by
  induction c using Compiler.run.induct registry with
  | case1 c ht =>
    refine Or.inl ⟨{ c with pending := [] }, run_of_idle ht, ?_, rfl⟩
    -- all that waits is documented already
    have hdrop : c.pending.dropWhile c.isFinished = [] := by
      unfold turn at ht
      split at ht
      · assumption
      · simp at ht
    have hknows : ∀ k, c.Knows k → c.isFinished k := fun k hk =>
      hk.elim id fun hp => List.dropWhile_eq_nil_iff.1 hdrop k hp
    exact ⟨⟨h.own, h.nodup, fun k m hk hm => Or.inl (hknows m (h.closed k m hk hm))⟩, h.kept,
      Or.inl (hknows root h.root_known),
      fun k hk => h.reached k (hk.elim Or.inl fun hp => absurd hp List.not_mem_nil)⟩
  | case2 c e c' ht =>
    obtain ⟨m, hm⟩ := h.unknown_of_turn ht
    exact Or.inr ⟨e, c', m, by rw [run, ht], hm⟩
  | case3 c c' ht ih =>
    rw [run_of_turn ht]
    exact ih (h.of_turn ht)

theorem add_of_run (h : run registry (c.enqueue name) = (.ok (), c')) :
    add registry c name = (.ok (), c') := by
  rw [add, h]

/-- **An addition documents all that is reachable** from `name`, or fails at a type that is not in
the registry and leaves the compiler as it was. -/
theorem Settled.add_cases (h : Settled registry c) (name : String) :
    (∃ c', add registry c name = (.ok (), c') ∧ Settled registry c' ∧
        ∀ k, c'.isFinished k ↔ c.isFinished k ∨ registry.Reaches name k) ∨
      ∃ e m, add registry c name = (.error e, c) ∧ registry.Reaches name m ∧
        registry.get? m = none := by
  rcases (h.running name).run_cases with ⟨c', hrun, hc', hp⟩ | ⟨e, c', m, hrun, hm⟩
  · have hs : Settled registry c' := ⟨hc'.toSound, hp⟩
    refine Or.inl ⟨c', add_of_run hrun, hs, fun k => ⟨fun hk => ?_, ?_⟩⟩
    · exact hc'.reached k (Or.inl hk)
    · rintro (hk | hk)
      · exact hc'.kept k hk
      · exact hs.isFinished_of_reaches ((knows_iff_of_pending hp).1 hc'.root_known) hk
  · exact Or.inr ⟨e, m, by rw [add, hrun], hm⟩

theorem Settled.contains_of_isFinished (h : Settled registry c) (hk : c.isFinished k) :
    registry.contains k := by
  obtain ⟨f, hf⟩ := isFinished_iff.1 hk
  obtain ⟨d, hd, -⟩ := h.own k f hf
  simp [Dict.contains, hd]

/-- An addition succeeds if and only if all that is reachable is in the registry. -/
theorem Settled.add_eq_ok_iff (h : Settled registry c) (name : String) :
    (add registry c name).1 = .ok () ↔
      ∀ m, registry.Reaches name m → registry.contains m := by
  rcases h.add_cases name with ⟨c', hadd, hs, hfin⟩ | ⟨e, m, hadd, hr, hm⟩
  · rw [hadd]
    exact ⟨fun _ m hm => hs.contains_of_isFinished ((hfin m).2 (Or.inr hm)), fun _ => rfl⟩
  · rw [hadd]
    refine ⟨fun h => by simp at h, fun h => ?_⟩
    simpa [Dict.contains, hm] using h m hr

theorem Settled.after_add (h : Settled registry c) (name : String) :
    Settled registry (add registry c name).2 := by
  rcases h.add_cases name with ⟨c', hadd, hs, -⟩ | ⟨e, m, hadd, -, -⟩
  · rwa [hadd]
  · rwa [hadd]

theorem Settled.isFinished_add (h : Settled registry c) (name : String) :
    (add registry c name).2.isFinished k ↔
      c.isFinished k ∨ (add registry c name).1 = .ok () ∧ registry.Reaches name k := by
  rcases h.add_cases name with ⟨c', hadd, -, hfin⟩ | ⟨e, m, hadd, -, -⟩
  · simp [hadd, hfin]
  · simp [hadd]

/-! ## Histories -/

/-- The compiler after some additions, of which failed ones change nothing. -/
def addAll (registry : Registry) (c : Compiler) (names : List String) : Compiler :=
  names.foldl (fun c name => (add registry c name).2) c

theorem Settled.after_addAll (h : Settled registry c) (names : List String) :
    Settled registry (addAll registry c names) := by
  induction names generalizing c with
  | nil => exact h
  | cons n rest ih => exact ih (h.after_add n)

/-- After a history, the types documented are those from before and those reachable from the roots
that could be added. -/
theorem Settled.isFinished_addAll (h : Settled registry c) (names : List String) :
    (addAll registry c names).isFinished k ↔ c.isFinished k ∨
      ∃ root ∈ names, (∀ m, registry.Reaches root m → registry.contains m) ∧
        registry.Reaches root k := by
  induction names generalizing c with
  | nil => simp [addAll]
  | cons n rest ih =>
    rw [Compiler.addAll, List.foldl_cons, ← Compiler.addAll, ih (h.after_add n), h.isFinished_add,
      h.add_eq_ok_iff, or_assoc]
    simp

/-- A root among `names` whose addition succeeded, and a type `k` reachable from it, with what was
added before. -/
def Added (registry : Registry) (names : List String) (k : String) : Prop :=
  ∃ before root after, names = before ++ root :: after ∧
    (add registry (addAll registry new before) root).1 = .ok () ∧ registry.Reaches root k

theorem added_iff {names : List String} : Added registry names k ↔
    ∃ root ∈ names, (∀ m, registry.Reaches root m → registry.contains m) ∧
      registry.Reaches root k := by
  constructor
  · rintro ⟨before, root, after, rfl, hok, hk⟩
    have hs := (settled_new registry).after_addAll before
    exact ⟨root, by simp, (hs.add_eq_ok_iff root).1 hok, hk⟩
  · rintro ⟨root, hroot, hall, hk⟩
    obtain ⟨before, after, rfl⟩ := List.append_of_mem hroot
    have hs := (settled_new registry).after_addAll before
    exact ⟨before, root, after, rfl, (hs.add_eq_ok_iff root).2 hall, hk⟩

/-- After a history on a new compiler, the types documented are those added and those they reach,
each with the fragment of its own definition. -/
theorem get?_finished_addAll {names : List String} {f : Json} :
    (addAll registry new names).finished.get? k = some f ↔ Added registry names k ∧
      ∃ d, registry.get? k = some d ∧ f = fragment (d.rootTree k).node := by
  have hs := (settled_new registry).after_addAll names
  have hnew : ¬(new.isFinished k : Prop) := by simp [new, isFinished, Dict.contains]
  rw [hs.get?_finished_iff, (settled_new registry).isFinished_addAll, added_iff, or_iff_right hnew]

/-- **The work list of a compilation**, over every history `names` of additions to a new compiler:

* turns cannot go on for ever (`turn` is well-founded);
* an addition succeeds exactly if all that is reachable is defined;
* a failing addition leaves the `finished` types as they were, and nothing `pending`;
* the finished types are those reachable from the roots whose addition succeeded, each with the
  fragment of its own definition;
* so a history `names'` with the same roots, in another order or repeated, documents the same. -/
theorem worklist (registry : Registry) :
    (WellFounded fun c' c : Compiler => turn registry c = some (.ok (), c')) ∧
      ∀ names : List String,
        (∀ name, (add registry (addAll registry new names) name).1 = .ok () ↔
          ∀ m, registry.Reaches name m → registry.contains m) ∧
        (∀ name e, (add registry (addAll registry new names) name).1 = .error e →
          (add registry (addAll registry new names) name).2.finished =
            (addAll registry new names).finished ∧
          (add registry (addAll registry new names) name).2.pending = []) ∧
        (addAll registry new names).pending = [] ∧
        (addAll registry new names).finished.names.Nodup ∧
        (∀ k f, (addAll registry new names).finished.get? k = some f ↔
          (∃ before root after, names = before ++ root :: after ∧
            (add registry (addAll registry new before) root).1 = .ok () ∧
            registry.Reaches root k) ∧
          ∃ d, registry.get? k = some d ∧ f = fragment (d.rootTree k).node) ∧
        ∀ names' : List String, (∀ n, n ∈ names' ↔ n ∈ names) →
          ∀ k, (addAll registry new names').finished.get? k =
            (addAll registry new names).finished.get? k := by
  refine ⟨wellFounded_turn registry, fun names => ?_⟩
  have hs := (settled_new registry).after_addAll names
  refine ⟨hs.add_eq_ok_iff, fun name e he => ?_, hs.pending, hs.nodup,
    fun k f => get?_finished_addAll, fun names' hsame k => ?_⟩
  · rcases hs.add_cases name with ⟨c', hadd, -⟩ | ⟨e', m, hadd, -, -⟩
    · simp [hadd] at he
    · exact ⟨by rw [hadd], by rw [hadd]; exact hs.pending⟩
  · refine Option.ext fun f => ?_
    simp only [get?_finished_addAll, added_iff, hsame]

end Compiler

end JsonShape
