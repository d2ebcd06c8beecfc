import JsonShape.Checked
import JsonShape.Member
import JsonShape.Proofs.Dict
import Mathlib.Data.List.Forall2
import Mathlib.Data.List.Nodup

/-!
# Members and items that are handled one by one

Records and arrays are checked, written and documented part by part. The lemmas here carry what
relates the parts over to the whole.

* `Member.distinct_forall₂`: redeclaring keeps what relates two lists of declarations of the same
  keys.
* `Member.distinct_of_nodup`: without a key that repeats, all declarations are in force.
* `Checked.ofItems_eq_ok` and `Checked.ofMembers_eq_ok`: when an array or an object is accepted.
* `Checked.ofItems_mapM_eq_ok` and `Checked.ofMembers_mapM_eq_ok`: with which result it is.
* `Checked.ofItems_eq_error` and `Checked.ofMembers_eq_error`: with which report it is not.
-/

namespace JsonShape

/-- A result in two steps is one where each step has a result. -/
theorem Except.bind_eq_ok {ε α β : Type} {x : Except ε α} {f : α → Except ε β} {b : β} :
    x.bind f = .ok b ↔ ∃ a, x = .ok a ∧ f a = .ok b := by
  cases x <;> simp [Except.bind]

theorem Except.bind_eq_error {ε α β : Type} {x : Except ε α} {f : α → Except ε β} {e : ε} :
    x.bind f = .error e ↔ x = .error e ∨ ∃ a, x = .ok a ∧ f a = .error e := by
  cases x <;> simp [Except.bind]

theorem Except.map_eq_ok {ε α β : Type} {x : Except ε α} {f : α → β} {b : β} :
    x.map f = .ok b ↔ ∃ a, x = .ok a ∧ f a = b := by
  cases x <;> simp [Except.map]

/-- The results for a list are those for its members. -/
theorem mapM_cons_eq_some {α β : Type} {f : α → Option β} {x : α} {xs : List α} {ys : List β} :
    (x :: xs).mapM f = some ys ↔
      ∃ y rest, f x = some y ∧ xs.mapM f = some rest ∧ ys = y :: rest := by
  simp only [List.mapM_cons, Option.pure_def, Option.bind_eq_bind, Option.bind_eq_some_iff,
    Option.some.injEq]
  constructor
  · rintro ⟨y, hy, rest, hrest, rfl⟩
    exact ⟨y, rest, hy, hrest, rfl⟩
  · rintro ⟨y, rest, hy, hrest, rfl⟩
    exact ⟨y, hy, rest, hrest, rfl⟩

/-- `xs.mapM f` has a result if `f` has one for each member, and the result has them in order. -/
theorem mapM_eq_some_iff {α β : Type} {f : α → Option β} {xs : List α} {ys : List β} :
    xs.mapM f = some ys ↔ List.Forall₂ (fun x y => f x = some y) xs ys := by
  induction xs generalizing ys with
  | nil => simp [eq_comm]
  | cons x xs ih =>
    rw [mapM_cons_eq_some]
    constructor
    · rintro ⟨y, rest, hy, hrest, rfl⟩
      exact .cons hy (ih.1 hrest)
    · rintro (_ | ⟨hy, hrest⟩)
      exact ⟨_, _, hy, ih.2 hrest, rfl⟩

/-- Members that are related one by one have a partner each. -/
theorem exists_of_forall₂_of_mem {α β : Type} {R : α → β → Prop} {as : List α} {bs : List β}
    (h : List.Forall₂ R as bs) {a : α} (ha : a ∈ as) : ∃ b ∈ bs, R a b := by
  induction h with
  | nil => simp at ha
  | cons hab _ ih =>
    rcases List.mem_cons.1 ha with rfl | ha
    · exact ⟨_, .head _, hab⟩
    · obtain ⟨b, hb, h⟩ := ih ha
      exact ⟨b, .tail _ hb, h⟩

/-- Functions that agree on related members agree on related lists. -/
theorem map_eq_of_forall₂ {α β γ : Type} {R : α → β → Prop} {f : α → γ} {g : β → γ} {as : List α}
    {bs : List β} (h : List.Forall₂ R as bs) (hfg : ∀ a b, R a b → f a = g b) :
    as.map f = bs.map g := by
  rw [← List.forall₂_eq_eq_eq, List.forall₂_map_left_iff, List.forall₂_map_right_iff]
  exact h.imp hfg

/-- Functions that agree on related members keep the same of related lists. -/
theorem filterMap_eq_of_forall₂ {α β γ : Type} {R : α → β → Prop} {f : α → Option γ}
    {g : β → Option γ} {as : List α} {bs : List β} (h : List.Forall₂ R as bs)
    (hfg : ∀ a b, R a b → f a = g b) : as.filterMap f = bs.filterMap g := by
  induction h with
  | nil => rfl
  | cons hab _ ih => rw [List.filterMap_cons, List.filterMap_cons, hfg _ _ hab, ih]

/-- Entries that are computed and kept one by one stand in the order of what they come from. -/
theorem map_fst_filterMap_sublist {α β κ : Type} (key : α → κ) (f : α → Option β) (as : List α) :
    ((as.filterMap fun a => (f a).map fun b => (key a, b)).map Prod.fst).Sublist (as.map key) := by
  induction as with
  | nil => exact .slnil
  | cons a rest ih =>
    cases h : f a with
    | none => simpa [h] using ih.cons (key a)
    | some b => simpa [h] using ih.cons_cons (key a)

/-- What is looked up in a list of distinct keys is what stands in it. -/
theorem lookup_eq_some_iff {β : Type} {es : List (Nat × β)} (h : (es.map Prod.fst).Nodup) {n : Nat}
    {b : β} : es.lookup n = some b ↔ (n, b) ∈ es := by
  induction es with
  | nil => simp
  | cons e rest ih =>
    obtain ⟨m, a⟩ := e
    rw [List.map_cons, List.nodup_cons] at h
    by_cases hm : n = m
    · subst hm
      have hmem : (n, b) ∉ rest := fun hb => h.1 (List.mem_map.2 ⟨_, hb, rfl⟩)
      simp [hmem, eq_comm]
    · have hne : (n == m) = false := by simpa using hm
      simp [List.lookup_cons, hne, hm, ih h.2]

namespace Member

variable {α β : Type} {R : Member α → Member β → Prop}

theorem declare_forall₂ (hkey : ∀ m n, R m n → m.key = n.key) {ms : List (Member α)}
    {ns : List (Member β)} (h : List.Forall₂ R ms ns) {m : Member α} {n : Member β} (hmn : R m n) :
    List.Forall₂ R (declare ms m) (declare ns n) := by
  induction h with
  | nil => exact .cons hmn .nil
  | @cons m' n' ms ns h' hs ih =>
    rw [declare, declare, ← hkey m n hmn, ← hkey m' n' h']
    split
    · exact .cons hmn hs
    · exact .cons h' ih

/-- Declarations that are related by `R` one by one are so after redeclaration, where `R` keeps the
key. -/
theorem distinct_forall₂ (hkey : ∀ m n, R m n → m.key = n.key) {ms : List (Member α)}
    {ns : List (Member β)} (h : List.Forall₂ R ms ns) :
    List.Forall₂ R (distinct ms) (distinct ns) := by
  suffices ∀ as bs, List.Forall₂ R as bs →
      List.Forall₂ R (ms.foldl declare as) (ns.foldl declare bs) from this [] [] .nil
  induction h with
  | nil => exact fun _ _ h => h
  | cons h' _ ih => exact fun as bs hs => ih _ _ (declare_forall₂ hkey hs h')

/-- Redeclaring looks at keys only: changes of the rest can be made before or after. -/
theorem distinct_map_of_key {g : Member α → Member β} (hkey : ∀ m, (g m).key = m.key)
    (ms : List (Member α)) : distinct (ms.map g) = (distinct ms).map g := by
  have h : List.Forall₂ (fun m n => g m = n) (distinct ms) (distinct (ms.map g)) :=
    distinct_forall₂ (fun m n h => h ▸ (hkey m).symm)
      (List.forall₂_map_right_iff.2 (List.forall₂_same.2 fun _ _ => rfl))
  rwa [← List.forall₂_map_left_iff, List.forall₂_eq_eq_eq, eq_comm] at h

theorem declare_of_forall {ms : List (Member α)} {m : Member α} (h : ∀ n ∈ ms, n.key ≠ m.key) :
    declare ms m = ms ++ [m] := by
  induction ms with
  | nil => rfl
  | cons l rest ih =>
    rw [declare, if_neg (h l (.head _)), ih fun n hn => h n (.tail _ hn), List.cons_append]

theorem mem_of_mem_declare {ms : List (Member α)} {m n : Member α} (h : n ∈ declare ms m) :
    n ∈ ms ∨ n = m := by
  induction ms with
  | nil => exact Or.inr (List.mem_singleton.1 h)
  | cons l rest ih =>
    rw [declare] at h
    split at h
    · exact (List.mem_cons.1 h).elim Or.inr fun h => Or.inl (.tail _ h)
    · rcases List.mem_cons.1 h with rfl | h
      · exact Or.inl (.head _)
      · exact (ih h).imp_left (.tail _)

/-- Every declaration in force was made. -/
theorem mem_of_mem_distinct {ms : List (Member α)} {m : Member α} (h : m ∈ distinct ms) :
    m ∈ ms := by
  suffices ∀ acc : List (Member α), m ∈ ms.foldl declare acc → m ∈ acc ∨ m ∈ ms from
    (this [] h).resolve_left List.not_mem_nil
  clear h
  induction ms with
  | nil => exact fun _ h => Or.inl h
  | cons n rest ih =>
    intro acc h
    rcases ih _ h with h | h
    · exact (mem_of_mem_declare h).imp_right fun h => List.mem_cons.2 (Or.inl h)
    · exact Or.inr (.tail _ h)

/-- Where no key is declared again, every declaration is in force, so `distinct` changes nothing. -/
theorem distinct_of_nodup {ms : List (Member α)} (h : (keys ms).Nodup) : distinct ms = ms := by
  suffices ∀ acc : List (Member α), (keys (acc ++ ms)).Nodup →
      ms.foldl declare acc = acc ++ ms from this [] h
  clear h
  induction ms with
  | nil => simp
  | cons m rest ih =>
    intro acc h
    have hdeclare : declare acc m = acc ++ [m] := by
      refine declare_of_forall fun n hn heq => ?_
      simp only [keys, List.map_append, List.map_cons] at h
      exact List.disjoint_of_nodup_append h (List.mem_map_of_mem hn) (heq ▸ .head _)
    rw [List.foldl_cons, hdeclare, ih _ (by simpa using h), List.append_assoc,
      List.singleton_append]

/-- No key repeats an earlier one, or one of `seen`, if all are distinct and new. -/
theorem firstRepeated?_eq_none {seen keys : List String} :
    firstRepeated? seen keys = none ↔ keys.Nodup ∧ ∀ k ∈ keys, k ∉ seen := by
  induction keys generalizing seen with
  | nil => simp [firstRepeated?]
  | cons k rest ih =>
    rw [firstRepeated?, List.nodup_cons, List.forall_mem_cons]
    by_cases h : k ∈ seen
    · simp [h]
    · rw [if_neg (by simpa using h), ih]
      simp only [List.mem_cons, not_or, forall_and]
      constructor
      · rintro ⟨hnodup, hne, hseen⟩
        exact ⟨⟨fun hk => hne k hk rfl, hnodup⟩, h, hseen⟩
      · rintro ⟨⟨hk, hnodup⟩, -, hseen⟩
        exact ⟨hnodup, fun l hl heq => hk (heq ▸ hl), hseen⟩

end Member

namespace Checked

/-- A value is accepted by a test as it is. -/
theorem check_eq_ok {accepted : Bool} {message : String} {v w : Json} :
    check accepted message v = .ok w ↔ accepted ∧ w = v := by
  cases accepted <;> simp [check, eq_comm]

/-- A test rejects a value with its message. -/
theorem check_eq_error {accepted : Bool} {message : String} {v : Json} {r : Report} :
    check accepted message v = .error r ↔ accepted = false ∧ r = .message message := by
  cases accepted <;> simp [check, eq_comm]

/-- An inheritance is accepted if both sides are. -/
theorem merge_eq_ok {parent child : Checked} {w : Json} :
    merge parent child = .ok w ↔ ∃ p c, parent = .ok p ∧ child = .ok c ∧ w = p.merge c := by
  cases parent <;> cases child <;> simp [merge, eq_comm]

/-- An inheritance reports each side that does not accept. -/
theorem merge_eq_error {parent child : Checked} {r : Report} :
    merge parent child = .error r ↔ (parent = .error r ∧ ∃ w, child = .ok w) ∨
      (child = .error r ∧ ∃ w, parent = .ok w) ∨
        ∃ p c, parent = .error p ∧ child = .error c ∧ r = .merged p c := by
  cases parent <;> cases child <;> simp [merge, eq_comm]

theorem failures_eq_nil {rs : List Checked} {i : Nat} :
    failures i rs = [] ↔ ∀ r ∈ rs, ∃ v, r = .ok v := by
  induction rs generalizing i with
  | nil => simp [failures]
  | cons r rest ih => cases r <;> simp [failures, ih]

theorem memberFailures_eq_nil {rs : List (String × Except Report (Option Json))} :
    memberFailures rs = [] ↔ ∀ r ∈ rs, ∃ v, r.2 = .ok v := by
  induction rs with
  | nil => simp [memberFailures]
  | cons r rest ih =>
    obtain ⟨key, r⟩ := r
    cases r <;> simp [memberFailures, ih]

/-- An array is accepted if all its items are. -/
theorem ofItems_eq_ok {rs : List Checked} {w : Json} :
    ofItems rs = .ok w ↔ (∀ r ∈ rs, ∃ v, r = .ok v) ∧ w = .array (accepted rs) := by
  rw [← failures_eq_nil (i := 0), ofItems]
  split
  · next h => simp [h, eq_comm]
  · next h => exact ⟨nofun, fun hw => absurd hw.1 h⟩

/-- An object is accepted if all its members are. -/
theorem ofMembers_eq_ok {rs : List (String × Except Report (Option Json))} {w : Json} :
    ofMembers rs = .ok w ↔ (∀ r ∈ rs, ∃ v, r.2 = .ok v) ∧ w = .object (acceptedMembers rs) := by
  rw [← memberFailures_eq_nil, ofMembers]
  split
  · next h => simp [h, eq_comm]
  · next h => exact ⟨nofun, fun hw => absurd hw.1 h⟩

/-- An array that is not accepted is reported by the items that are not, the `failures`. -/
theorem ofItems_eq_error {rs : List Checked} {r : Report} :
    ofItems rs = .error r ↔ failures 0 rs ≠ [] ∧ r = .list (failures 0 rs) := by
  unfold ofItems
  split
  · next h => simp [h]
  · next h => exact ⟨fun hr => ⟨h, (Except.error.inj hr).symm⟩, fun hr => congrArg _ hr.2.symm⟩

/-- An object that is not accepted is reported by the members that are not, the `memberFailures`. -/
theorem ofMembers_eq_error {rs : List (String × Except Report (Option Json))} {r : Report} :
    ofMembers rs = .error r ↔ memberFailures rs ≠ [] ∧ r = .object (memberFailures rs) := by
  unfold ofMembers
  split
  · next h => simp [h]
  · next h => exact ⟨fun hr => ⟨h, (Except.error.inj hr).symm⟩, fun hr => congrArg _ hr.2.symm⟩

/-- The members of results, one entry for each key that has a value. -/
theorem names_acceptedMembers_sublist (rs : List (String × Except Report (Option Json))) :
    (Dict.names (acceptedMembers rs)).Sublist (Dict.names rs) := by
  induction rs with
  | nil => exact .slnil
  | cons r rest ih =>
    obtain ⟨key, r⟩ := r
    rcases r with _ | _ | w
    · exact ih.cons key
    · exact ih.cons key
    · exact ih.cons_cons key

/-- What is found among the accepted members is the result for the key. -/
theorem get?_acceptedMembers {rs : List (String × Except Report (Option Json))} {key : String}
    {x : Option Json} (hnodup : (Dict.names rs).Nodup) (h : (key, .ok x) ∈ rs) :
    Dict.get? (acceptedMembers rs) key = x := by
  induction rs with
  | nil => exact absurd h List.not_mem_nil
  | cons r rest ih =>
    obtain ⟨k, r⟩ := r
    rw [Dict.names_cons, List.nodup_cons] at hnodup
    rcases List.mem_cons.1 h with heq | hmem
    · obtain ⟨rfl, rfl⟩ := Prod.mk.inj heq
      cases x with
      | some w => simp [acceptedMembers, Dict.get?]
      | none =>
        exact Dict.get?_eq_none_iff.2 fun hn =>
          hnodup.1 ((names_acceptedMembers_sublist rest).subset hn)
    · have hne : k ≠ key := fun heq => hnodup.1 (heq ▸ List.mem_map.2 ⟨_, hmem, rfl⟩)
      have hrest := ih hnodup.2 hmem
      rcases r with _ | _ | w
      · exact hrest
      · exact hrest
      · rw [acceptedMembers, Dict.get?, if_neg hne]
        exact hrest

/-- **An object is accepted member by member.** The result has accepted members only, in their
order, and under each key what the member is accepted as, if anything. -/
theorem ofMembers_mapM_eq_ok {α : Type} {key : α → String}
    {answer : α → Option (Except Report (Option Json))} {xs : List α} {w : Json}
    (hnodup : (xs.map key).Nodup) :
    (xs.mapM fun a => (answer a).map fun r => (key a, r)).map ofMembers = some (.ok w) ↔
      ∃ ws : Dict Json, w = .object ws ∧ ws.names.Sublist (xs.map key) ∧
        ∀ a ∈ xs, answer a = some (.ok (ws.get? (key a))) := by
  simp only [Option.map_eq_some_iff, mapM_eq_some_iff, ofMembers_eq_ok]
  constructor
  · rintro ⟨rs, hrs, hok, rfl⟩
    have hnames : xs.map key = Dict.names rs := map_eq_of_forall₂ hrs fun a _ ⟨r, _, h⟩ => by
      rw [← h]
    refine ⟨_, rfl, hnames ▸ names_acceptedMembers_sublist rs, fun a ha => ?_⟩
    obtain ⟨_, hmem, r, hr, rfl⟩ := exists_of_forall₂_of_mem hrs ha
    obtain ⟨x, rfl⟩ : ∃ x, r = .ok x := hok _ hmem
    rw [hr, get?_acceptedMembers (hnames ▸ hnodup) hmem]
  · rintro ⟨ws, rfl, hsub, hanswer⟩
    let rs := xs.map fun a => (key a, Except.ok (ε := Report) (ws.get? (key a)))
    have hnames : Dict.names rs = xs.map key := List.map_map
    have hget : ∀ k ∈ xs.map key, ws.get? k = Dict.get? (acceptedMembers rs) k := by
      intro k hk
      obtain ⟨a, ha, rfl⟩ := List.mem_map.1 hk
      have hmem : (key a, .ok (ws.get? (key a))) ∈ rs := List.mem_map_of_mem ha
      exact (get?_acceptedMembers (hnames ▸ hnodup) hmem).symm
    have hws : ws = acceptedMembers rs :=
      Dict.eq_of_sublist hnodup hsub (hnames ▸ names_acceptedMembers_sublist rs) hget
    refine ⟨rs, ?_, fun r hr => ?_, congrArg Json.object hws⟩
    · exact List.forall₂_map_right_iff.2 (List.forall₂_same.2 fun a ha => ⟨_, hanswer a ha, rfl⟩)
    · obtain ⟨a, -, rfl⟩ := List.mem_map.1 hr
      exact ⟨_, rfl⟩

theorem accepted_map_ok (ys : List Json) : accepted (ys.map .ok) = ys := by
  induction ys with
  | nil => rfl
  | cons y rest ih => exact congrArg _ ih

/-- Results without a report are known by the accepted values. -/
theorem eq_map_accepted {rs : List Checked} (h : ∀ r ∈ rs, ∃ v, r = .ok v) :
    rs = (accepted rs).map .ok := by
  induction rs with
  | nil => rfl
  | cons r rest ih =>
    obtain ⟨v, rfl⟩ := h r (.head _)
    exact congrArg _ (ih fun r hr => h r (.tail _ hr))

/-- **An array is accepted item by item.** -/
theorem ofItems_mapM_eq_ok {α : Type} {answer : α → Option Checked} {xs : List α} {w : Json} :
    (xs.mapM answer).map ofItems = some (.ok w) ↔
      ∃ ys, w = .array ys ∧ List.Forall₂ (fun x y => answer x = some (.ok y)) xs ys := by
  simp only [Option.map_eq_some_iff, mapM_eq_some_iff, ofItems_eq_ok]
  constructor
  · rintro ⟨rs, hrs, hok, rfl⟩
    rw [eq_map_accepted hok, List.forall₂_map_right_iff] at hrs
    exact ⟨_, rfl, hrs⟩
  · rintro ⟨ys, rfl, h⟩
    refine ⟨ys.map .ok, List.forall₂_map_right_iff.2 h, ?_, by rw [accepted_map_ok]⟩
    simp

end Checked

end JsonShape
