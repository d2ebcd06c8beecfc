/-!
# Association lists in insertion order

A `Dict α` is a list of named entries whose order is part of its meaning. Writing to a name that is
already there replaces the entry in place, so a name keeps the position of its first appearance
and carries the value of its last one.

* `Dict.insert`, `Dict.extend` and `Dict.ofList` write entries with that rule.
* `Dict.absorb` only adds names that are not there yet: the first entry of a name wins.
* `Dict.sortByName` orders the entries by name.
* `total` adds up what the members of a list weigh.
* `nodup_names_insert` and `nodup_names_ofList`: writing keeps the names distinct.
-/

namespace JsonShape

/-- Named entries in insertion order. -/
abbrev Dict (α : Type) := List (String × α)

namespace Dict

variable {α β : Type}

/-- The names of the entries, in order. -/
def names (d : Dict α) : List String := d.map Prod.fst

/-- The values of the entries, in order. -/
def values (d : Dict α) : List α := d.map Prod.snd

/-- The first entry called `name`. -/
def get? : Dict α → String → Option α
  | [], _ => none
  | (k, v) :: rest, name => if k = name then some v else get? rest name

/-- Whether some entry is called `name`. -/
def contains (d : Dict α) (name : String) : Bool := (d.get? name).isSome

/-- Writes one entry: in place if the name is there, at the end otherwise. -/
def insert : Dict α → String → α → Dict α
  | [], name, v => [(name, v)]
  | (k, w) :: rest, name, v =>
    if k = name then (k, v) :: rest else (k, w) :: insert rest name v

/-- Writes the entries of `more`, from first to last, into `d`. -/
def extend (d more : Dict α) : Dict α := more.foldl (fun acc e => acc.insert e.1 e.2) d

/-- The entries of a list, each name once: at its first position, with its last value. This is
`extend` from nothing. -/
def ofList (entries : List (String × α)) : Dict α := extend [] entries

/-- Adds the entries of `more` whose names are not in `d` yet. -/
def absorb (d more : Dict α) : Dict α :=
  more.foldl (fun acc e => if acc.contains e.1 then acc else acc ++ [e]) d

/-- Removes every entry called `name`. -/
def erase (d : Dict α) (name : String) : Dict α := d.filter (fun e => e.1 ≠ name)

/-- Applies `f` to every value. -/
def mapValues (f : α → β) (d : Dict α) : Dict β := d.map fun e => (e.1, f e.2)

/-- Puts an entry in front of the first one whose name is greater. -/
def insertSorted (e : String × α) : Dict α → Dict α
  | [] => [e]
  | f :: rest => if e.1 < f.1 then e :: f :: rest else f :: insertSorted e rest

/-- The entries in ascending order of their names; entries of one name keep their order. -/
def sortByName (d : Dict α) : Dict α := d.foldl (fun acc e => insertSorted e acc) []

/-! ## Names -/

@[simp] theorem names_nil : names ([] : Dict α) = [] := rfl

@[simp] theorem names_cons (e : String × α) (d : Dict α) : names (e :: d) = e.1 :: names d := rfl

theorem mem_names_insert {d : Dict α} {name k : String} {v : α} :
    k ∈ (d.insert name v).names ↔ k ∈ d.names ∨ k = name := by
  induction d with
  | nil => simp [insert]
  | cons e rest ih =>
    obtain ⟨l, w⟩ := e
    by_cases h : l = name
    · subst h
      simp only [insert, if_true, names_cons, List.mem_cons]
      constructor
      · exact Or.inl
      · rintro (h | rfl)
        · exact h
        · exact Or.inl rfl
    · simp only [insert, if_neg h, names_cons, List.mem_cons, ih, or_assoc]

theorem nodup_names_insert {d : Dict α} (h : d.names.Nodup) (name : String) (v : α) :
    (d.insert name v).names.Nodup := by
  induction d with
  | nil => simp [insert]
  | cons e rest ih =>
    obtain ⟨l, w⟩ := e
    simp only [names_cons, List.nodup_cons] at h
    by_cases hl : l = name
    · simpa [insert, hl] using ⟨hl ▸ h.1, h.2⟩
    · simp only [insert, if_neg hl, names_cons, List.nodup_cons, mem_names_insert]
      exact ⟨fun hm => hm.elim h.1 hl, ih h.2⟩

theorem nodup_names_extend {d : Dict α} (h : d.names.Nodup) (more : Dict α) :
    (d.extend more).names.Nodup := by
  induction more generalizing d with
  | nil => exact h
  | cons e rest ih => exact ih (nodup_names_insert h e.1 e.2)

theorem nodup_names_ofList (entries : List (String × α)) : (ofList entries).names.Nodup :=
  nodup_names_extend (by simp) entries

/-! ## Lookup -/

@[simp] theorem get?_nil (name : String) : get? ([] : Dict α) name = none := rfl

theorem get?_insert (d : Dict α) (name k : String) (v : α) :
    (d.insert name v).get? k = if name = k then some v else d.get? k := by
  induction d with
  | nil => rfl
  | cons e rest ih =>
    obtain ⟨l, w⟩ := e
    by_cases hl : l = name
    · subst hl
      by_cases hk : l = k <;> simp [insert, get?, hk]
    · by_cases hk : l = k
      · subst hk
        simp [insert, get?, hl, Ne.symm hl]
      · simp [insert, get?, hl, hk, ih]

theorem get?_eq_none_iff {d : Dict α} {name : String} : d.get? name = none ↔ name ∉ d.names := by
  induction d with
  | nil => simp
  | cons e rest ih =>
    obtain ⟨l, w⟩ := e
    by_cases hl : l = name
    · simp [get?, hl]
    · simp [get?, hl, ih, Ne.symm hl]

end Dict

/-! ## Totals -/

/-- The total weight of the members of a list. -/
def total {α : Type} (weight : α → Nat) : List α → Nat
  | [] => 0
  | x :: rest => weight x + total weight rest

end JsonShape
