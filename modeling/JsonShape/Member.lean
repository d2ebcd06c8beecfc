/-!
# Members of a record

A record declares its members in order. A key that is declared again is redeclared: it keeps its
first place and takes its last declaration.

* `Member.distinct` is the list in which every key stands once.
* `Member.firstRepeated?` finds the key that is declared a second time.
* `distinct_map` and `nodup_keys_distinct`: redeclaring looks at keys only, and leaves each once.
-/

namespace JsonShape

/-- A declared member of a record. -/
structure Member (α : Type) where
  key : String
  value : α
  required : Bool
  description : Option String

namespace Member

variable {α β : Type}

/-- The member with another value. -/
def map (f : α → β) (m : Member α) : Member β := ⟨m.key, f m.value, m.required, m.description⟩

/-- The keys, in order. -/
def keys (ms : List (Member α)) : List String := ms.map key

/-- Declares a member: in place if its key is there, at the end otherwise. -/
def declare (ms : List (Member α)) (m : Member α) : List (Member α) :=
  match ms with
  | [] => [m]
  | n :: rest => if n.key = m.key then m :: rest else n :: declare rest m

/-- The declarations in force: of those with one key the last, at the place of the first
(`declare`). -/
def distinct (ms : List (Member α)) : List (Member α) := ms.foldl declare []

/-- The first key that repeats an earlier one of a list. -/
def firstRepeated? : (seen keys : List String) → Option String
  | _, [] => none
  | seen, k :: rest => if seen.contains k then some k else firstRepeated? (k :: seen) rest

@[simp] theorem key_map (f : α → β) (m : Member α) : (m.map f).key = m.key := rfl

theorem declare_map (f : α → β) (ms : List (Member α)) (m : Member α) :
    declare (ms.map (map f)) (m.map f) = (declare ms m).map (map f) := by
  induction ms with
  | nil => rfl
  | cons n rest ih =>
    by_cases h : n.key = m.key
    · simp [declare, h]
    · simp [declare, h, ih]

theorem foldl_declare_map (f : α → β) (acc ms : List (Member α)) :
    (ms.map (map f)).foldl declare (acc.map (map f)) = (ms.foldl declare acc).map (map f) := by
  induction ms generalizing acc with
  | nil => rfl
  | cons m rest ih => simp only [List.map_cons, List.foldl_cons, declare_map, ih]

theorem distinct_map (f : α → β) (ms : List (Member α)) :
    distinct (ms.map (map f)) = (distinct ms).map (map f) := foldl_declare_map f [] ms

theorem mem_keys_declare {ms : List (Member α)} {m : Member α} {k : String} :
    k ∈ keys (declare ms m) ↔ k ∈ keys ms ∨ k = m.key := by
  induction ms with
  | nil => simp [declare, keys]
  | cons n rest ih =>
    simp only [keys] at ih
    by_cases h : n.key = m.key
    · simp only [declare, h, if_true, keys, List.map_cons, List.mem_cons]
      constructor
      · rintro (h | h)
        · exact Or.inr h
        · exact Or.inl (Or.inr h)
      · rintro ((h | h) | h)
        · exact Or.inl h
        · exact Or.inr h
        · exact Or.inl h
    · simp only [declare, h, if_false, keys, List.map_cons, List.mem_cons, ih, or_assoc]

theorem nodup_keys_declare {ms : List (Member α)} (h : (keys ms).Nodup) (m : Member α) :
    (keys (declare ms m)).Nodup := by
  induction ms with
  | nil => simp [declare, keys]
  | cons n rest ih =>
    simp only [keys, List.map_cons, List.nodup_cons] at h
    by_cases hn : n.key = m.key
    · simp only [declare, if_pos hn, keys, List.map_cons, List.nodup_cons]
      exact ⟨hn ▸ h.1, h.2⟩
    · have hmem := @mem_keys_declare α rest m n.key
      simp only [keys] at hmem ih
      simp only [declare, if_neg hn, keys, List.map_cons, List.nodup_cons, hmem]
      exact ⟨fun hm => hm.elim h.1 hn, ih h.2⟩

theorem nodup_keys_distinct (ms : List (Member α)) : (keys (distinct ms)).Nodup := by
  suffices ∀ acc : List (Member α), (keys acc).Nodup → (keys (ms.foldl declare acc)).Nodup from
    this [] (by simp [keys])
  induction ms with
  | nil => exact fun _ h => h
  | cons m rest ih => exact fun acc h => ih _ (nodup_keys_declare h m)

end Member

end JsonShape
