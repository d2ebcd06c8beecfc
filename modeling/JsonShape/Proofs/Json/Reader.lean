import JsonShape.Json.Reader
import JsonShape.Proofs.Json.Token
import JsonShape.Proofs.Members

/-!
# The reader has steps enough

The reader of values counts its steps down, and `readRaw` gives it as many as it can need: a value
takes a byte at least, so `2 * n + 1` steps read any value of `n` bytes. With more steps the reader
answers the same (`readRawAt_eq`), errors included, and so its equations can be stated without a
number of steps.
-/

namespace JsonShape

namespace Json

variable {α β : Type} {c c' : Cursor} {path : Path} {fuel fuel' depth i : Nat} {first : Bool}

/-! ## What is left of the text -/

theorem at_eq_ok {r : Scan α} {x : α × Cursor} : at_ path r = .ok x ↔ r = .ok x := by
  rcases r with e | y <;> simp [at_]

theorem leaves_at {r : Scan α} {text : List UInt8} (h : Leaves r text) (path : Path) :
    Leaves (at_ path r) text := by
  rcases r with e | ⟨x, c⟩
  · exact leaves_error _
  · exact leaves_ok (h x c rfl)

theorem leaves_readColon (c : Cursor) : Leaves (readColon c) c.rest := by
  unfold readColon
  dsimp only
  split
  · exact leaves_ok (c.skipBlanks.skip_suffix.trans c.skipBlanks_suffix)
  · exact leaves_error _
  · exact leaves_error _

theorem leaves_moreItems (first : Bool) (c : Cursor) : Leaves (moreItems first c) c.rest := by
  fun_cases moreItems first c with
  | case2 => exact leaves_ok c.skipBlanks_suffix
  | case3 => exact leaves_ok c.skipBlanks_suffix
  | case6 c₁ _ c₂ =>
    exact leaves_ok (c₁.skip.skipBlanks_suffix.trans (c₁.skip_suffix.trans c.skipBlanks_suffix))
  | _ => exact leaves_error _

/-- A name takes its quotes at least. -/
theorem left_of_quotedName {name? : Option String} (h : quotedName c = .ok (name?, c')) :
    c'.rest <:+ c.rest ∧ c'.rest.length < c.rest.length := by
  unfold quotedName at h
  split at h
  case h_2 hpeek =>
    split at h
    · next name d hstring =>
      cases h
      have hleft := leaves_readString c.skip _ _ hstring
      have htext := congrArg List.length (Cursor.rest_eq_of_peek? hpeek)
      rw [List.length_cons] at htext
      have := hleft.length_le
      exact ⟨hleft.trans c.skip_suffix, by omega⟩
    · cases h
  all_goals cases h

/-- Where `nextName` answers a name, it has taken some of the text. -/
theorem left_of_nextName {name? : Option String} (h : nextName first c = .ok (name?, c')) :
    c'.rest <:+ c.rest ∧ (name? ≠ none → c'.rest.length < c.rest.length) := by
  have hquoted : ∀ d : Cursor, d.rest <:+ c.rest → quotedName d = .ok (name?, c') →
      c'.rest <:+ c.rest ∧ (name? ≠ none → c'.rest.length < c.rest.length) := fun d hd hr =>
    have ⟨hleft, hlt⟩ := left_of_quotedName hr
    ⟨hleft.trans hd, fun _ => hlt.trans_le hd.length_le⟩
  have hblanks := c.skipBlanks_suffix
  unfold nextName at h
  dsimp only at h
  split at h
  · cases h
  · cases h
    exact ⟨hblanks, fun hnone => absurd rfl hnone⟩
  · split at h
    · exact hquoted c.skipBlanks hblanks h
    · split at h
      · exact hquoted _ (c.skipBlanks.skip.skipBlanks_suffix.trans
          (c.skipBlanks.skip_suffix.trans hblanks)) h
      · cases h

theorem leaves_nextName (first : Bool) (c : Cursor) : Leaves (nextName first c) c.rest :=
  fun _ _ h => (left_of_nextName h).1

mutual

/-- A value takes its first byte at least. -/
theorem leaves_readRawAt (fuel depth : Nat) (path : Path) (c : Cursor) :
    Leaves (readRawAt fuel depth path c) c.skipBlanks.skip.rest := by
  cases fuel with
  | zero =>
    rw [readRawAt]
    exact leaves_error _
  | succ fuel =>
    unfold readRawAt
    dsimp only
    have hword := fun word => leaves_at (leaves_readWord word c.skipBlanks.skip) path
    split
    · exact leaves_error _
    · exact (hword _).bind fun _ _ _ => leaves_ok List.suffix_rfl
    · exact (hword _).bind fun _ _ _ => leaves_ok List.suffix_rfl
    · exact (hword _).bind fun _ _ _ => leaves_ok List.suffix_rfl
    · exact (leaves_at (leaves_readString _) path).bind fun _ _ _ => leaves_ok List.suffix_rfl
    · exact ((leaves_at (leaves_readNumber true _) path).mono (Cursor.skip_suffix _)).bind
        fun _ _ _ => leaves_ok List.suffix_rfl
    · split
      · exact leaves_error _
      · exact (leaves_readItems fuel _ path 0 _).bind fun _ c _ => leaves_ok c.skip_suffix
    · split
      · exact leaves_error _
      · exact (leaves_readMembers fuel _ path true _).bind fun _ c _ => leaves_ok c.skip_suffix
    · split
      · exact (leaves_at (leaves_readNumber false _) path).bind
          fun _ _ _ => leaves_ok List.suffix_rfl
      · exact leaves_error _

theorem leaves_readItems (fuel depth : Nat) (path : Path) (i : Nat) (c : Cursor) :
    Leaves (readItems fuel depth path i c) c.rest := by
  cases fuel with
  | zero =>
    rw [readItems]
    exact leaves_error _
  | succ fuel =>
    unfold readItems
    refine (leaves_at (leaves_moreItems _ c) path).bind fun more c _ => ?_
    dsimp only
    split
    · refine ((leaves_readRawAt fuel depth _ c).mono ?_).bind fun x c' _ => ?_
      · exact c.skipBlanks.skip_suffix.trans c.skipBlanks_suffix
      · exact (leaves_readItems fuel depth path (i + 1) c').bind fun _ _ _ =>
          leaves_ok List.suffix_rfl
    · exact leaves_ok List.suffix_rfl

theorem leaves_readMembers (fuel depth : Nat) (path : Path) (first : Bool) (c : Cursor) :
    Leaves (readMembers fuel depth path first c) c.rest := by
  cases fuel with
  | zero =>
    rw [readMembers]
    exact leaves_error _
  | succ fuel =>
    unfold readMembers
    refine (leaves_at (leaves_nextName first c) _).bind fun name? c _ => ?_
    dsimp only
    split
    · exact leaves_ok List.suffix_rfl
    · refine (leaves_at (leaves_readColon c) path).bind fun _ c _ => ?_
      refine ((leaves_readRawAt fuel depth _ c).mono ?_).bind fun x c' _ => ?_
      · exact c.skipBlanks.skip_suffix.trans c.skipBlanks_suffix
      · exact (leaves_readMembers fuel depth path false c').bind fun _ _ _ =>
          leaves_ok List.suffix_rfl

end

theorem length_lt_of_readRawAt {v : Json} (h : readRawAt fuel depth path c = .ok (v, c')) :
    c'.rest.length < c.rest.length := by
  have hleft := (leaves_readRawAt fuel depth path c v c' h).length_le
  have hblanks := c.skipBlanks_suffix.length_le
  cases hpeek : c.skipBlanks.peek? with
  | some b =>
    have htext := congrArg List.length (Cursor.rest_eq_of_peek? hpeek)
    rw [List.length_cons] at htext
    omega
  | none =>
    cases fuel with
    | zero =>
      rw [readRawAt] at h
      cases h
    | succ fuel =>
      unfold readRawAt at h
      simp only [hpeek] at h
      cases h

theorem length_lt_of_readRaw {v : Json} (h : readRaw depth path c = .ok (v, c')) :
    c'.rest.length < c.rest.length :=
  length_lt_of_readRawAt h

/-! ## Steps enough -/

/-- With steps enough for `c`, further steps make no difference. -/
theorem readRawAt_stable (fuel : Nat) :
    (∀ fuel' depth path c, 2 * c.rest.length + 1 ≤ fuel → 2 * c.rest.length + 1 ≤ fuel' →
      readRawAt fuel depth path c = readRawAt fuel' depth path c) ∧
    (∀ fuel' depth path i c, 2 * c.rest.length + 2 ≤ fuel → 2 * c.rest.length + 2 ≤ fuel' →
      readItems fuel depth path i c = readItems fuel' depth path i c) ∧
    (∀ fuel' depth path first c, 2 * c.rest.length + 2 ≤ fuel → 2 * c.rest.length + 2 ≤ fuel' →
      readMembers fuel depth path first c = readMembers fuel' depth path first c) := by
  induction fuel with
  | zero => exact ⟨fun _ _ _ _ h => absurd h (by omega), fun _ _ _ _ _ h => absurd h (by omega),
      fun _ _ _ _ _ h => absurd h (by omega)⟩
  | succ fuel ih =>
    obtain ⟨ihraw, ihitems, ihmembers⟩ := ih
    refine ⟨fun fuel' depth path c h h' => ?_, fun fuel' depth path i c h h' => ?_,
      fun fuel' depth path first c h h' => ?_⟩
    all_goals obtain ⟨fuel', rfl⟩ : ∃ n, fuel' = n + 1 := ⟨fuel' - 1, by omega⟩
    · have hblanks := c.skipBlanks_suffix.length_le
      unfold readRawAt
      dsimp only
      cases hpeek : c.skipBlanks.peek? with
      | none => rfl
      | some b =>
        have htext := congrArg List.length (Cursor.rest_eq_of_peek? hpeek)
        rw [List.length_cons] at htext
        rw [ihitems fuel' (depth - 1) path 0 c.skipBlanks.skip (by omega) (by omega),
          ihmembers fuel' (depth - 1) path true c.skipBlanks.skip (by omega) (by omega)]
    · unfold readItems
      refine (leaves_at (leaves_moreItems _ c) path).bind_congr fun more c₁ _ hc₁ => ?_
      have hc₁ := hc₁.length_le
      dsimp only
      split
      · rw [ihraw fuel' depth (.index i :: path) c₁ (by omega) (by omega)]
        refine (leaves_readRawAt fuel' depth _ c₁).bind_congr fun x c₂ hx _ => ?_
        have hc₂ := length_lt_of_readRawAt hx
        dsimp only
        rw [ihitems fuel' depth path (i + 1) c₂ (by omega) (by omega)]
      · rfl
    · unfold readMembers
      refine (leaves_at (leaves_nextName first c) _).bind_congr fun name? c₁ _ hc₁ => ?_
      have hc₁ := hc₁.length_le
      dsimp only
      split
      · rfl
      · next name _ =>
        refine (leaves_at (leaves_readColon c₁) path).bind_congr fun _ c₂ _ hc₂ => ?_
        have hc₂ := hc₂.length_le
        dsimp only
        rw [ihraw fuel' depth (.key name :: path) c₂ (by omega) (by omega)]
        refine (leaves_readRawAt fuel' depth _ c₂).bind_congr fun x c₃ hx _ => ?_
        have hc₃ := length_lt_of_readRawAt hx
        dsimp only
        rw [ihmembers fuel' depth path false c₃ (by omega) (by omega)]

/-! ## No number of steps -/

/-- The items from index `i` on, read with steps enough for the text that is left. -/
def readAllItems (depth : Nat) (path : Path) (i : Nat) (c : Cursor) :
    Except Fault (List Json × Cursor) :=
  readItems (2 * c.rest.length + 2) depth path i c

/-- The members that follow, read with steps enough for the text that is left. -/
def readAllMembers (depth : Nat) (path : Path) (first : Bool) (c : Cursor) :
    Except Fault (List (String × Json) × Cursor) :=
  readMembers (2 * c.rest.length + 2) depth path first c

theorem readRawAt_eq (h : 2 * c.rest.length + 1 ≤ fuel) :
    readRawAt fuel depth path c = readRaw depth path c :=
  (readRawAt_stable fuel).1 _ depth path c h (by omega)

theorem readItems_eq (h : 2 * c.rest.length + 2 ≤ fuel) :
    readItems fuel depth path i c = readAllItems depth path i c :=
  (readRawAt_stable fuel).2.1 _ depth path i c h (by omega)

theorem readMembers_eq (h : 2 * c.rest.length + 2 ≤ fuel) :
    readMembers fuel depth path first c = readAllMembers depth path first c :=
  (readRawAt_stable fuel).2.2 _ depth path first c h (by omega)

theorem readAllItems_eq (depth : Nat) (path : Path) (i : Nat) (c : Cursor) :
    readAllItems depth path i c = (do
      let (more, c) ← at_ path (moreItems (i = 0) c)
      if more then
        let (x, c) ← readRaw depth (.index i :: path) c
        let (xs, c) ← readAllItems depth path (i + 1) c
        .ok (x :: xs, c)
      else .ok ([], c) : Except Fault (List Json × Cursor)) := by
  rw [readAllItems, readItems]
  refine (leaves_at (leaves_moreItems _ c) path).bind_congr fun more c₁ _ hc₁ => ?_
  have hc₁ := hc₁.length_le
  dsimp only
  split
  · rw [readRawAt_eq (by omega)]
    refine (leaves_readRawAt _ depth _ c₁).bind_congr fun x c₂ hx _ => ?_
    have hc₂ := length_lt_of_readRawAt hx
    dsimp only
    rw [readItems_eq (by omega)]
  · rfl

theorem readAllMembers_eq (depth : Nat) (path : Path) (first : Bool) (c : Cursor) :
    readAllMembers depth path first c = (do
      let (name?, c) ← at_ (.unknown :: path) (nextName first c)
      match name? with
      | none => .ok ([], c)
      | some name =>
        let (_, c) ← at_ path (readColon c)
        let (x, c) ← readRaw depth (.key name :: path) c
        let (ms, c) ← readAllMembers depth path false c
        .ok ((name, x) :: ms, c) : Except Fault (List (String × Json) × Cursor)) := by
  rw [readAllMembers, readMembers]
  refine (leaves_at (leaves_nextName first c) _).bind_congr fun name? c₁ _ hc₁ => ?_
  have hc₁ := hc₁.length_le
  dsimp only
  split
  · rfl
  · refine (leaves_at (leaves_readColon c₁) path).bind_congr fun _ c₂ _ hc₂ => ?_
    have hc₂ := hc₂.length_le
    dsimp only
    rw [readRawAt_eq (by omega)]
    refine (leaves_readRawAt _ depth _ c₂).bind_congr fun x c₃ hx _ => ?_
    have hc₃ := length_lt_of_readRawAt hx
    dsimp only
    rw [readMembers_eq (by omega)]

theorem readRaw_string (h : c.skipBlanks.peek? = some 34) :
    readRaw depth path c = (do
      let (s, c) ← at_ path (readString c.skipBlanks.skip)
      .ok (.string s, c) : Except Fault (Json × Cursor)) := by
  rw [readRaw, readRawAt]
  simp only [h]

theorem readRaw_array (h : c.skipBlanks.peek? = some 91) :
    readRaw depth path c =
      if depth ≤ 1 then at_ path (failAhead c.skipBlanks .tooDeep)
      else (do
        let (xs, c) ← readAllItems (depth - 1) path 0 c.skipBlanks.skip
        .ok (.array xs, c.skip) : Except Fault (Json × Cursor)) := by
  have hblanks := c.skipBlanks_suffix.length_le
  have htext := congrArg List.length (Cursor.rest_eq_of_peek? h)
  rw [List.length_cons] at htext
  rw [readRaw, readRawAt]
  simp only [h]
  rw [readItems_eq (by omega)]

theorem readRaw_object (h : c.skipBlanks.peek? = some 123) :
    readRaw depth path c =
      if depth ≤ 1 then at_ path (failAhead c.skipBlanks .tooDeep)
      else (do
        let (ms, c) ← readAllMembers (depth - 1) path true c.skipBlanks.skip
        .ok (.object ms, c.skip) : Except Fault (Json × Cursor)) := by
  have hblanks := c.skipBlanks_suffix.length_le
  have htext := congrArg List.length (Cursor.rest_eq_of_peek? h)
  rw [List.length_cons] at htext
  rw [readRaw, readRawAt]
  simp only [h]
  rw [readMembers_eq (by omega)]

theorem eq_array_of_readRaw {v : Json} (hpeek : c.skipBlanks.peek? = some 91)
    (h : readRaw depth path c = .ok (v, c')) : ∃ xs, v = .array xs := by
  rw [readRaw_array hpeek] at h
  split at h
  · cases h
  · obtain ⟨x, -, h⟩ := Except.bind_eq_ok.1 h
    cases h
    exact ⟨x.1, rfl⟩

theorem eq_object_of_readRaw {v : Json} (hpeek : c.skipBlanks.peek? = some 123)
    (h : readRaw depth path c = .ok (v, c')) : ∃ ms, v = .object ms := by
  rw [readRaw_object hpeek] at h
  split at h
  · cases h
  · obtain ⟨x, -, h⟩ := Except.bind_eq_ok.1 h
    cases h
    exact ⟨x.1, rfl⟩

/-- A value that is neither an array nor an object does not depend on the depth. -/
theorem readRaw_scalar (harray : c.skipBlanks.peek? ≠ some 91)
    (hobject : c.skipBlanks.peek? ≠ some 123) (depth depth' : Nat) :
    readRaw depth path c.skipBlanks = readRaw depth' path c := by
  rw [readRaw, readRaw, readRawAt, readRawAt]
  simp only [Cursor.skipBlanks_skipBlanks]
  split
  case h_7 hpeek => exact absurd hpeek harray
  case h_8 hpeek => exact absurd hpeek hobject
  all_goals rfl

/-- The first byte of what `readRaw` reads tells a string, an array and an object from other values:
a quote, a bracket and a brace. -/
theorem peek?_of_readRaw {v : Json} (h : readRaw depth path c = .ok (v, c')) :
    (∀ s, v = .string s → c.skipBlanks.peek? = some 34) ∧
      (∀ xs, v = .array xs → c.skipBlanks.peek? = some 91) ∧
      (∀ ms, v = .object ms → c.skipBlanks.peek? = some 123) := by
  rw [readRaw, readRawAt] at h
  dsimp only at h
  split at h
  case h_1 => cases h
  case h_7 hpeek | h_8 hpeek =>
    split at h
    · cases h
    · obtain ⟨⟨xs, c⟩, -, h⟩ := Except.bind_eq_ok.1 h
      cases h
      simp [hpeek]
  case h_9 =>
    split at h
    · obtain ⟨⟨x, c⟩, -, h⟩ := Except.bind_eq_ok.1 h
      cases h
      simp
    · cases h
  all_goals
    obtain ⟨⟨x, c⟩, -, h⟩ := Except.bind_eq_ok.1 h
    cases h
    simp [*]

end Json

end JsonShape
