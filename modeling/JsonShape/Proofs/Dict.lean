import JsonShape.Dict
import JsonShape.Proofs.Distinct
import Mathlib.Data.List.Nodup
import Mathlib.Data.String.Basic

/-!
# Lookups in association lists

What a lookup finds after an operation on an association list, and the order of sorted ones.

* `Dict.get?_append`, `Dict.get?_extend`, `Dict.get?_mapValues`: lookups after joining two lists,
  after writing one over another and after a change of all values.
* `eq_of_sublist`: entries in the order of one list are known by their lookups.
* `Dict.Sorted` says that the names ascend; `Dict.sortByName` makes a list so (`sorted_sortByName`),
  leaves a sorted list as it is (`sortByName_of_sorted`), changes no lookup (`get?_sortByName`),
  even where a name stands twice, and lets distinct names ascend strictly
  (`pairwise_lt_sortByName`).
-/

namespace JsonShape

namespace Dict

variable {α β : Type} {d : Dict α} {name k : String} {v : α}

/-! ## Lookup -/

theorem get?_append (d more : Dict α) (k : String) :
    get? (d ++ more) k = (d.get? k).or (more.get? k) := by
  induction d with
  | nil => rfl
  | cons e rest ih =>
    obtain ⟨l, w⟩ := e
    by_cases h : l = k
    · simp [get?, h]
    · simp [get?, h, ih]

theorem get?_mapValues (f : α → β) (d : Dict α) (k : String) :
    (d.mapValues f).get? k = (d.get? k).map f := by
  induction d with
  | nil => rfl
  | cons e rest ih =>
    obtain ⟨l, w⟩ := e
    simp only [mapValues, List.map_cons, get?] at ih ⊢
    split
    · rfl
    · exact ih

theorem names_mapValues (f : α → β) (d : Dict α) : (d.mapValues f).names = d.names := by
  rw [names, mapValues, List.map_map]
  rfl

/-- What is found in `d` is what stands in it, where its names are distinct. -/
theorem get?_eq_some_iff (h : d.names.Nodup) : d.get? k = some v ↔ (k, v) ∈ d := by
  induction d with
  | nil => simp
  | cons e rest ih =>
    obtain ⟨l, w⟩ := e
    rw [names_cons, List.nodup_cons] at h
    by_cases hl : l = k
    · subst hl
      have hmem : (l, v) ∉ rest := fun hm => h.1 (List.mem_map.2 ⟨_, hm, rfl⟩)
      simp [get?, hmem, eq_comm]
    · simp [get?, hl, Ne.symm hl, ih h.2]

/-- The order of entries with distinct names does not count for lookups. -/
theorem get?_of_perm {d' : Dict α} (hd : d.names.Nodup) (h : d.Perm d') (k : String) :
    d.get? k = d'.get? k := by
  have hd' : d'.names.Nodup := (h.map Prod.fst).nodup_iff.1 hd
  refine Option.ext fun v => ?_
  rw [get?_eq_some_iff hd, get?_eq_some_iff hd', h.mem_iff]

theorem mem_of_get? (h : d.get? k = some v) : (k, v) ∈ d := by
  induction d with
  | nil => simp at h
  | cons e rest ih =>
    obtain ⟨l, w⟩ := e
    by_cases hl : l = k
    · subst hl
      simp only [get?, if_true, Option.some.injEq] at h
      simp [h]
    · rw [get?, if_neg hl] at h
      exact .tail _ (ih h)

theorem contains_iff : d.contains k ↔ k ∈ d.names := by
  rw [contains, Option.isSome_iff_ne_none, ne_eq, get?_eq_none_iff, not_not]

theorem contains_eq_false_iff : d.contains k = false ↔ k ∉ d.names := by
  rw [← Bool.not_eq_true, contains_iff]

theorem exists_get? (h : k ∈ d.names) : ∃ v, d.get? k = some v :=
  Option.isSome_iff_exists.1 (contains_iff.2 h)

theorem get?_erase (d : Dict α) (name k : String) :
    (d.erase name).get? k = if name = k then none else d.get? k := by
  induction d with
  | nil => simp [erase]
  | cons e rest ih =>
    obtain ⟨l, w⟩ := e
    rw [erase] at ih ⊢
    by_cases hl : l = name
    · subst hl
      rw [List.filter_cons_of_neg (by simp), ih]
      by_cases hk : l = k <;> simp [get?, hk]
    · rw [List.filter_cons_of_pos (by simpa using hl), get?, ih]
      by_cases hk : l = k
      · simp [get?, hk, Ne.symm (hk ▸ hl)]
      · simp [get?, hk]

/-- What `d` finds, `d'` finds too. -/
def Le (d d' : Dict α) : Prop := ∀ name v, d.get? name = some v → d'.get? name = some v

theorem Le.refl (d : Dict α) : d.Le d := fun _ _ h => h

theorem Le.trans {d d' d'' : Dict α} (h : d.Le d') (h' : d'.Le d'') : d.Le d'' :=
  fun name v hv => h' name v (h name v hv)

theorem Le.erase {d d' : Dict α} (h : d.Le d') (name : String) :
    (d.erase name).Le (d'.erase name) := by
  intro k v hv
  rw [get?_erase] at hv ⊢
  split at hv
  · cases hv
  · next hk => rw [if_neg hk, h k v hv]

theorem erase_le (d : Dict α) (name : String) : (d.erase name).Le d := by
  intro k v hv
  rw [get?_erase] at hv
  split at hv
  · cases hv
  · exact hv

/-- The last entry of a name counts where entries are written over one another: those of `more`, and
then that of `d`. -/
theorem get?_extend (d more : Dict α) (k : String) :
    (d.extend more).get? k = (get? more.reverse k).or (d.get? k) := by
  induction more generalizing d with
  | nil => rfl
  | cons e rest ih =>
    have hcons : d.extend (e :: rest) = (d.insert e.1 e.2).extend rest := rfl
    rw [hcons, ih, List.reverse_cons, get?_append, get?_insert, Option.or_assoc]
    by_cases h : e.1 = k <;> simp [get?, h]

/-- A name that is not written is found as it was. -/
theorem get?_extend_of_notMem {more : Dict α} (h : k ∉ more.names) (d : Dict α) :
    (d.extend more).get? k = d.get? k := by
  have hnone : get? more.reverse k = none := by
    rw [get?_eq_none_iff, names, List.map_reverse, List.mem_reverse]
    exact h
  rw [get?_extend, hnone, Option.none_or]

theorem get?_ofList (entries : List (String × α)) (k : String) :
    (ofList entries).get? k = get? entries.reverse k := by
  rw [ofList, get?_extend, get?_nil, Option.or_none]

/-- A new name is written at the end. -/
theorem insert_of_notMem (h : name ∉ d.names) (v : α) : d.insert name v = d ++ [(name, v)] := by
  induction d with
  | nil => rfl
  | cons e rest ih =>
    rw [names_cons, List.mem_cons, not_or] at h
    rw [insert, if_neg (Ne.symm h.1), ih h.2, List.cons_append]

/-- New names that are distinct are written at the end, in their order. -/
theorem extend_of_nodup {more : Dict α} (h : (names (d ++ more)).Nodup) :
    d.extend more = d ++ more := by
  induction more generalizing d with
  | nil => rw [List.append_nil]; rfl
  | cons e rest ih =>
    have hcons : d.extend (e :: rest) = (d.insert e.1 e.2).extend rest := rfl
    have hnew : e.1 ∉ d.names := by
      rw [names, List.map_append, List.map_cons] at h
      exact fun hmem => List.disjoint_of_nodup_append h hmem (.head _)
    have hassoc : d ++ e :: rest = d ++ [e] ++ rest := by
      rw [List.append_assoc, List.singleton_append]
    rw [hcons, insert_of_notMem hnew, hassoc]
    exact ih (hassoc ▸ h)

theorem names_insert (d : Dict α) (name : String) (v : α) :
    (d.insert name v).names = if name ∈ d.names then d.names else d.names ++ [name] := by
  induction d with
  | nil => rfl
  | cons e rest ih =>
    obtain ⟨l, w⟩ := e
    by_cases hl : l = name
    · simp [insert, hl]
    · rw [insert, if_neg hl, names_cons, ih]
      by_cases h : name ∈ names rest <;> simp [h, Ne.symm hl]

theorem mem_of_mem_insert {e : String × α} (h : e ∈ d.insert name v) : e ∈ d ∨ e = (name, v) := by
  induction d with
  | nil => exact Or.inr (List.mem_singleton.1 h)
  | cons g rest ih =>
    obtain ⟨l, w⟩ := g
    rw [insert] at h
    split at h
    · next hl =>
      rcases List.mem_cons.1 h with rfl | h
      · exact Or.inr (by rw [hl])
      · exact Or.inl (.tail _ h)
    · rcases List.mem_cons.1 h with rfl | h
      · exact Or.inl (.head _)
      · exact (ih h).imp_left (.tail _)

theorem mem_of_mem_extend {more : Dict α} {e : String × α} (h : e ∈ d.extend more) :
    e ∈ d ∨ e ∈ more := by
  induction more generalizing d with
  | nil => exact Or.inl h
  | cons g rest ih =>
    have hcons : d.extend (g :: rest) = (d.insert g.1 g.2).extend rest := rfl
    rw [hcons] at h
    rcases ih h with h | h
    · exact (mem_of_mem_insert h).imp_right fun h => List.mem_cons.2 (Or.inl h)
    · exact Or.inr (.tail _ h)

/-- No entry comes in from elsewhere. -/
theorem mem_of_mem_ofList {entries : List (String × α)} {e : String × α} (h : e ∈ ofList entries) :
    e ∈ entries :=
  (mem_of_mem_extend h).resolve_left List.not_mem_nil

theorem mem_names_extend {more : Dict α} :
    k ∈ (d.extend more).names ↔ k ∈ d.names ∨ k ∈ more.names := by
  induction more generalizing d with
  | nil => simp [extend]
  | cons g rest ih =>
    have hcons : d.extend (g :: rest) = (d.insert g.1 g.2).extend rest := rfl
    rw [hcons, ih, mem_names_insert, names_cons, List.mem_cons, or_assoc]

theorem mem_names_ofList {entries : List (String × α)} :
    k ∈ (ofList entries).names ↔ k ∈ names entries := by
  rw [ofList, mem_names_extend, names_nil]
  simp

/-- The names that `ofList` writes down one by one stand once each, in the order in which they first
come. -/
theorem names_ofList (entries : List (String × α)) :
    (ofList entries).names = (names entries).eraseDups := by
  induction entries using List.reverseRecOn with
  | nil => rfl
  | append_singleton rest e ih =>
    have hlast : ofList (rest ++ [e]) = (ofList rest).insert e.1 e.2 := by
      rw [ofList, extend, List.foldl_append]
      rfl
    have hnames : names (rest ++ [e]) = names rest ++ [e.1] := List.map_append
    rw [hlast, names_insert, hnames, List.eraseDups_append_singleton, ih]
    simp only [List.mem_eraseDups]

/-- What is written down last for a key is found under it. -/
theorem get?_ofList_map (key : β → String) (value : β → α) (bs : List β) (k : String) :
    (ofList (bs.map fun b => (key b, value b))).get? k =
      (bs.reverse.find? fun b => key b = k).map value := by
  rw [get?_ofList, ← List.map_reverse]
  induction bs.reverse with
  | nil => rfl
  | cons b rest ih =>
    rw [List.map_cons, get?, ih, List.find?_cons]
    by_cases h : key b = k <;> simp [h]

theorem ofList_append (entries more : List (String × α)) :
    ofList (entries ++ more) = (ofList entries).extend more := List.foldl_append

/-- Writing entries of distinct names down one by one changes nothing. -/
theorem get?_ofList_of_nodup {entries : List (String × α)} (h : (names entries).Nodup)
    (k : String) : (ofList entries).get? k = get? entries k := by
  refine Option.ext fun v => ?_
  have hrev : (names entries.reverse).Nodup := by
    rw [names, List.map_reverse]
    exact List.nodup_reverse.2 h
  rw [get?_ofList, get?_eq_some_iff h, get?_eq_some_iff hrev, List.mem_reverse]

/-- Of two entries with one name, the one that is laid over the other is found. -/
theorem get?_extend_of_nodup {more : Dict α} (h : more.names.Nodup) (d : Dict α) (k : String) :
    (d.extend more).get? k = (more.get? k).or (d.get? k) := by
  rw [get?_extend, ← get?_ofList, get?_ofList_of_nodup h]

/-! ## Writing over and over -/

theorem insert_insert (d : Dict α) (name : String) (v w : α) :
    (d.insert name v).insert name w = d.insert name w := by
  induction d with
  | nil => exact if_pos rfl
  | cons e rest ih =>
    obtain ⟨l, u⟩ := e
    by_cases hl : l = name
    · simp only [insert, if_pos hl]
    · simp only [insert, if_neg hl, ih]

/-- A name that is there can be written before another one or after it. -/
theorem insert_comm (hne : name ≠ k) (h : k ∈ d.names) (v w : α) :
    (d.insert name w).insert k v = (d.insert k v).insert name w := by
  induction d with
  | nil => cases h
  | cons e rest ih =>
    obtain ⟨l, u⟩ := e
    rw [names_cons, List.mem_cons] at h
    by_cases hk : l = k
    · subst hk
      simp only [insert, if_neg hne.symm, if_true]
    · have hrest := ih (h.resolve_left (Ne.symm hk))
      by_cases hl : l = name
      · subst hl
        simp only [insert, if_neg hk, if_true]
      · simp only [insert, if_neg hk, if_neg hl, hrest]

theorem insert_extend_of_notMem {more : Dict α} (hd : k ∈ d.names) (h : k ∉ more.names) (v : α) :
    (d.insert k v).extend more = (d.extend more).insert k v := by
  induction more generalizing d with
  | nil => rfl
  | cons e rest ih =>
    rw [names_cons, List.mem_cons, not_or] at h
    have hcons : ∀ d' : Dict α, d'.extend (e :: rest) = (d'.insert e.1 e.2).extend rest :=
      fun _ => rfl
    rw [hcons, hcons, ← ih (mem_names_insert.2 (Or.inl hd)) h.2, insert_comm (Ne.symm h.1) hd]

/-- An entry is written last where it stands among the written ones. -/
theorem extend_insert {more : Dict α} (h : more.names.Nodup) (d : Dict α) (k : String) (v : α) :
    d.extend (more.insert k v) = (d.extend more).insert k v := by
  induction more generalizing d with
  | nil => rfl
  | cons e rest ih =>
    obtain ⟨l, u⟩ := e
    rw [names_cons, List.nodup_cons] at h
    by_cases hl : l = k
    · subst hl
      have hthere : l ∈ (d.insert l u).names := mem_names_insert.2 (Or.inr rfl)
      rw [insert, if_pos rfl]
      change (d.insert l v).extend rest = ((d.insert l u).extend rest).insert l v
      rw [← insert_extend_of_notMem hthere h.1, insert_insert]
    · rw [insert, if_neg hl]
      exact ih h.2 (d.insert l u)

/-- **What has been written before is written like what it was written from**: `ofList` ahead of
`extend` changes nothing, the order of names included. -/
theorem extend_ofList (d : Dict α) (entries : List (String × α)) :
    d.extend (ofList entries) = d.extend entries := by
  induction entries using List.reverseRecOn with
  | nil => rfl
  | append_singleton entries e ih =>
    have hlast : ∀ d' : Dict α, d'.extend (entries ++ [e]) = (d'.extend entries).insert e.1 e.2 :=
      fun d' => List.foldl_append
    rw [hlast, ofList, hlast, ← ofList, extend_insert (nodup_names_ofList entries), ih]

/-- Entries of distinct names are written down as they are. -/
theorem ofList_of_nodup (h : d.names.Nodup) : ofList d = d := extend_of_nodup h

/-- Of three lists, it makes no difference which two are written over one another first. -/
theorem extend_assoc {more : Dict α} (h : more.names.Nodup) (d last : Dict α) :
    (d.extend more).extend last = d.extend (more.extend last) :=
  calc (d.extend more).extend last
    _ = d.extend (more ++ last) := List.foldl_append.symm
    _ = d.extend (ofList (more ++ last)) := (extend_ofList d _).symm
    _ = d.extend (more.extend last) := by rw [ofList_append, ofList_of_nodup h]

/-! ## Computed entries -/

theorem names_map_key (f : String → α) (keys : List String) :
    names (keys.map fun k => (k, f k)) = keys := by
  rw [names, List.map_map]
  exact List.map_id keys

/-- What is found where entries are computed from their names. -/
theorem get?_map_key (f : String → α) (keys : List String) (k : String) :
    get? (keys.map fun k => (k, f k)) k = if k ∈ keys then some (f k) else none := by
  induction keys with
  | nil => rfl
  | cons l rest ih =>
    rw [List.map_cons, get?, ih]
    by_cases h : l = k
    · simp [h]
    · simp [h, Ne.symm h]

/-- What is found under a name depends on what is kept for this name. -/
theorem get?_filterMap_congr {γ : Type} {key : γ → String} {f g : γ → Option α} {cs : List γ}
    {k : String} (h : ∀ c ∈ cs, key c = k → f c = g c) :
    get? (cs.filterMap fun c => (f c).map fun a => (key c, a)) k =
      get? (cs.filterMap fun c => (g c).map fun a => (key c, a)) k := by
  induction cs with
  | nil => rfl
  | cons c rest ih =>
    have hrest := ih fun d hd => h d (.tail _ hd)
    by_cases hk : key c = k
    · have hfg := h c (.head _) hk
      cases hg : g c with
      | none => simpa [hfg, hg] using hrest
      | some a => simp [hfg, hg, get?, hk]
    · cases hf : f c <;> cases hg : g c <;> simpa [hf, hg, get?, hk] using hrest

/-! ## Entries in the order of a list -/

/-- Entries whose names follow a list without repetitions are listed by their lookups. -/
theorem eq_filterMap_of_sublist {l : List String} (hl : l.Nodup) (h : d.names.Sublist l) :
    d = l.filterMap fun k => (d.get? k).map fun x => (k, x) := by
  induction l generalizing d with
  | nil => exact List.map_eq_nil_iff.1 (List.sublist_nil.1 h)
  | cons k l ih =>
    have ⟨hk, htail⟩ := List.nodup_cons.1 hl
    rcases List.sublist_cons_iff.1 h with h | ⟨names, hnames, h⟩
    · have hnone : d.get? k = none := get?_eq_none_iff.2 fun hmem => hk (h.subset hmem)
      rw [List.filterMap_cons_none (by rw [hnone]; rfl)]
      exact ih htail h
    · obtain ⟨⟨k, x⟩, rest, rfl, rfl, rfl⟩ := List.map_eq_cons_iff.1 hnames
      have hrest : ∀ j ∈ l, get? ((k, x) :: rest) j = get? rest j := fun j hj =>
        if_neg fun heq : k = j => hk (heq ▸ hj)
      rw [List.filterMap_cons_some (b := (k, x)) (by simp [get?])]
      refine congrArg _ ((ih htail h).trans (List.filterMap_congr fun j hj => ?_))
      rw [hrest j hj]

/-- Entries whose names follow one list `l` without repetitions are known by their lookups. -/
theorem eq_of_sublist {d' : Dict α} {l : List String} (hl : l.Nodup) (h : d.names.Sublist l)
    (h' : d'.names.Sublist l) (hget : ∀ k ∈ l, d.get? k = d'.get? k) : d = d' := by
  rw [eq_filterMap_of_sublist hl h, eq_filterMap_of_sublist hl h']
  exact List.filterMap_congr fun k hk => by rw [hget k hk]

/-! ## Order -/

/-- The names ascend. -/
def Sorted (d : Dict α) : Prop := d.Pairwise fun e f => ¬f.1 < e.1

theorem mem_insertSorted {e f : String × α} : f ∈ insertSorted e d ↔ f = e ∨ f ∈ d := by
  induction d with
  | nil => simp [insertSorted]
  | cons g rest ih =>
    rw [insertSorted]
    split
    · simp
    · rw [List.mem_cons, ih, List.mem_cons]
      exact ⟨fun h => h.elim (Or.inr ∘ Or.inl) (Or.imp_right Or.inr),
        fun h => h.elim (Or.inr ∘ Or.inl) (Or.imp_right Or.inr)⟩

theorem sorted_insertSorted (h : Sorted d) (e : String × α) : Sorted (insertSorted e d) := by
  induction d with
  | nil => exact List.pairwise_singleton _ _
  | cons g rest ih =>
    have ⟨hg, hrest⟩ := List.pairwise_cons.1 h
    rw [insertSorted]
    split
    · next he =>
      refine List.pairwise_cons.2 ⟨fun f hf => ?_, h⟩
      rcases List.mem_cons.1 hf with rfl | hf
      · exact lt_asymm he
      · exact fun hfe => hg f hf (lt_trans hfe he)
    · next he =>
      refine List.pairwise_cons.2 ⟨fun f hf => ?_, ih hrest⟩
      rcases mem_insertSorted.1 hf with rfl | hf
      · exact he
      · exact hg f hf

theorem sorted_foldl_insertSorted (h : Sorted d) (more : Dict α) :
    Sorted (more.foldl (fun acc e => insertSorted e acc) d) := by
  induction more generalizing d with
  | nil => exact h
  | cons e rest ih => exact ih (sorted_insertSorted h e)

theorem sorted_sortByName (d : Dict α) : Sorted d.sortByName :=
  sorted_foldl_insertSorted List.Pairwise.nil d

/-- An entry that no other one has to follow goes to the end. -/
theorem insertSorted_of_forall {e : String × α} (h : ∀ f ∈ d, ¬e.1 < f.1) :
    insertSorted e d = d ++ [e] := by
  induction d with
  | nil => rfl
  | cons g rest ih =>
    rw [insertSorted, if_neg (h g (.head _)), ih fun f hf => h f (.tail _ hf), List.cons_append]

/-- `sortByName` leaves a sorted list as it is. -/
theorem sortByName_of_sorted (h : Sorted d) : d.sortByName = d := by
  suffices ∀ acc : Dict α, Sorted (acc ++ d) →
      d.foldl (fun acc e => insertSorted e acc) acc = acc ++ d from this [] h
  clear h
  induction d with
  | nil => simp
  | cons e rest ih =>
    intro acc h
    have hlast : insertSorted e acc = acc ++ [e] := insertSorted_of_forall fun f hf =>
      (List.pairwise_append.1 h).2.2 f hf e (.head _)
    rw [List.foldl_cons, hlast, ih _ (by simpa using h), List.append_assoc, List.singleton_append]

theorem perm_insertSorted (e : String × α) (d : Dict α) : (insertSorted e d).Perm (e :: d) := by
  induction d with
  | nil => exact List.Perm.refl _
  | cons g rest ih =>
    rw [insertSorted]
    split
    · exact List.Perm.refl _
    · exact (ih.cons g).trans (List.Perm.swap e g rest)

/-- `sortByName` neither adds nor drops entries. -/
theorem perm_sortByName (d : Dict α) : d.sortByName.Perm d := by
  suffices ∀ acc : Dict α,
      (d.foldl (fun acc e => insertSorted e acc) acc).Perm (d ++ acc) from
    (this []).trans (by rw [List.append_nil])
  induction d with
  | nil => exact fun acc => List.Perm.refl _
  | cons e rest ih =>
    intro acc
    have hmiddle : (rest ++ insertSorted e acc).Perm (rest ++ e :: acc) :=
      (perm_insertSorted e acc).append_left rest
    exact (ih (insertSorted e acc)).trans (hmiddle.trans List.perm_middle)

theorem mem_names_sortByName : k ∈ d.sortByName.names ↔ k ∈ d.names :=
  ((perm_sortByName d).map Prod.fst).mem_iff

/-- Sorted names that are distinct ascend strictly. -/
theorem pairwise_lt_sortByName (h : d.names.Nodup) :
    d.sortByName.Pairwise fun e f => e.1 < f.1 := by
  have hnodup : d.sortByName.names.Nodup :=
    ((perm_sortByName d).map Prod.fst).nodup_iff.2 h
  have hne : d.sortByName.Pairwise fun e f => e.1 ≠ f.1 := List.pairwise_map.1 hnodup
  refine ((sorted_sortByName d).and hne).imp fun {e f} hef => ?_
  exact lt_of_le_of_ne (not_lt.1 hef.1) hef.2

/-- Sorted entries with distinct names are known by their lookups. -/
theorem sortByName_eq_of_get? {d' : Dict α} (hd : d.names.Nodup) (hd' : d'.names.Nodup)
    (h : ∀ k, d.get? k = d'.get? k) : d.sortByName = d'.sortByName := by
  have hperm : d.Perm d' := by
    refine (List.perm_ext_iff_of_nodup (.of_map _ hd) (.of_map _ hd')).2 fun e => ?_
    rw [← get?_eq_some_iff hd, ← get?_eq_some_iff hd', h]
  have hsorted : d.sortByName.Perm d'.sortByName :=
    (perm_sortByName d).trans (hperm.trans (perm_sortByName d').symm)
  exact hsorted.eq_of_pairwise (fun _ _ _ _ hlt hgt => absurd hgt (lt_asymm hlt))
    (pairwise_lt_sortByName hd) (pairwise_lt_sortByName hd')

theorem get?_insertSorted (h : Sorted d) (e : String × α) (k : String) :
    (insertSorted e d).get? k = (d.get? k).or (get? [e] k) := by
  induction d with
  | nil => rfl
  | cons g rest ih =>
    obtain ⟨hg, hrest⟩ := List.pairwise_cons.1 h
    rw [insertSorted]
    split
    · next he =>
      -- whatever follows is greater, so it is not called like the entry
      have hnot : e.1 = k → get? (g :: rest) k = none := by
        rintro rfl
        refine get?_eq_none_iff.2 fun hm => ?_
        obtain ⟨f, hf, hfe⟩ := List.mem_map.1 hm
        rcases List.mem_cons.1 hf with rfl | hf
        · exact absurd he (hfe ▸ lt_irrefl _)
        · exact hg f hf (hfe ▸ he)
      obtain ⟨l, w⟩ := e
      by_cases hk : l = k
      · rw [hnot hk]
        simp [get?, hk]
      · simp [get?, hk]
    · obtain ⟨l, w⟩ := g
      simp only [get?] at ih ⊢
      split
      · rfl
      · exact ih hrest

/-- Sorting changes no lookup. -/
theorem get?_sortByName (d : Dict α) (k : String) : d.sortByName.get? k = d.get? k := by
  suffices ∀ acc : Dict α, Sorted acc →
      get? (d.foldl (fun acc e => insertSorted e acc) acc) k = (acc.get? k).or (d.get? k) from
    this [] List.Pairwise.nil
  induction d with
  | nil => simp
  | cons e rest ih =>
    intro acc h
    rw [List.foldl_cons, ih _ (sorted_insertSorted h e), get?_insertSorted h, Option.or_assoc,
      ← get?_append, List.singleton_append]

theorem mapValues_insertSorted (f : α → β) (e : String × α) (d : Dict α) :
    (insertSorted e d).mapValues f = insertSorted (e.1, f e.2) (d.mapValues f) := by
  induction d with
  | nil => rfl
  | cons g rest ih =>
    simp only [mapValues, insertSorted, List.map_cons] at ih ⊢
    split
    · rfl
    · rw [List.map_cons, ih]

theorem mapValues_sortByName (f : α → β) (d : Dict α) :
    d.sortByName.mapValues f = (d.mapValues f).sortByName := by
  suffices ∀ acc : Dict α, mapValues f (d.foldl (fun acc e => insertSorted e acc) acc) =
      (d.mapValues f).foldl (fun acc e => insertSorted e acc) (acc.mapValues f) from this []
  induction d with
  | nil => exact fun _ => rfl
  | cons e rest ih =>
    intro acc
    rw [List.foldl_cons, ih, mapValues_insertSorted]
    rfl

end Dict

/-! ## Totals -/

section total

variable {α β : Type} {f g : α → Nat} {xs : List α}

theorem total_mono (h : ∀ x ∈ xs, f x ≤ g x) : total f xs ≤ total g xs := by
  induction xs with
  | nil => exact Nat.le_refl _
  | cons x rest ih =>
    exact Nat.add_le_add (h x (.head _)) (ih fun y hy => h y (.tail _ hy))

/-- A list whose members weigh something is no longer than they weigh together. -/
theorem length_le_total (h : ∀ x ∈ xs, 1 ≤ f x) : xs.length ≤ total f xs := by
  induction xs with
  | nil => exact Nat.le_refl _
  | cons x rest ih =>
    have hx := h x (.head _)
    have hrest := ih fun y hy => h y (.tail _ hy)
    simp only [List.length_cons, total]
    omega

/-- What is erased weighed at least what was found. -/
theorem total_erase_le {d : Dict α} {name : String} {v : α} (f : String × α → Nat)
    (h : d.get? name = some v) : f (name, v) + total f (d.erase name) ≤ total f d := by
  have hle : ∀ d : Dict α, total f (d.erase name) ≤ total f d := by
    intro d
    induction d with
    | nil => exact Nat.le_refl _
    | cons e rest ih =>
      rw [Dict.erase] at ih ⊢
      rw [List.filter_cons, total]
      split
      · exact Nat.add_le_add_left ih _
      · exact ih.trans (Nat.le_add_left _ _)
  induction d with
  | nil => cases h
  | cons e rest ih =>
    obtain ⟨l, w⟩ := e
    by_cases hl : l = name
    · subst hl
      obtain rfl : w = v := by simpa [Dict.get?] using h
      rw [Dict.erase, List.filter_cons_of_neg (by simp), total]
      exact Nat.add_le_add_left (hle rest) _
    · rw [Dict.get?, if_neg hl] at h
      rw [Dict.erase, List.filter_cons_of_pos (by simpa using hl), total, total]
      have := ih h
      rw [Dict.erase] at this
      omega

/-- Lists that are joined are as long as all of them together. -/
theorem length_flatMap_eq_total (f : α → List β) (xs : List α) :
    (xs.flatMap f).length = total (fun x => (f x).length) xs := by
  induction xs with
  | nil => rfl
  | cons x rest ih => rw [List.flatMap_cons, List.length_append, ih, total]

end total

end JsonShape
