import JsonShape.Proofs.Input.Places
import JsonShape.Regex.Pattern

/-!
# Which places share a path

A path is written without marks around names, so that a name with a point or an opening bracket in
it reads as several steps. Places without such names are known by their paths, but for the member
without a name, which has the path of the value as a whole.

* `Place.Plain`: no step to the place has such a name; `Place.path_eq_iff`: which plain places have
  the same path.
* `pathHash_by_place`: where places are known by their paths, a report is flattened by place.
* `Input.paths_tell_places_apart`: what holds of the report of a check.
-/

namespace JsonShape

namespace Report

/-! ## Plain names -/

/-- The characters that begin a step. -/
def opens (c : Char) : Bool := c = '.' || c = '['

/-- The name of the member has neither of the characters that begin a step: no point and no opening
bracket. -/
def Step.Plain : Step → Prop
  | .member key => ∀ c ∈ key.toList, opens c = false
  | .item _ => True

/-- No step begins within a name on the way to the place. -/
def Place.Plain (p : Place) : Prop := ∀ s ∈ p, s.Plain

instance : DecidablePred Step.Plain
  | .member key => List.decidableBAll (fun c => opens c = false) key.toList
  | .item _ => isTrue trivial

instance : DecidablePred Place.Plain := fun p => List.decidableBAll Step.Plain p

namespace Step

/-- The character that begins the step. -/
def opener : Step → Char
  | .member _ => '.'
  | .item _ => '['

/-- The characters after it. -/
def body : Step → List Char
  | .member key => key.toList
  | .item index => Nat.toDigits 10 index ++ [']']

variable {s t : Step}

theorem toList_text (s : Step) : s.text.toList = s.opener :: s.body := by
  cases s <;> simp [text, opener, body]

theorem opens_opener (s : Step) : opens s.opener = true := by
  cases s <;> rfl

/-- No step begins within a plain one. -/
theorem Plain.opens_body (h : s.Plain) : ∀ c ∈ s.body, opens c = false := by
  cases s with
  | member key => exact h
  | item index =>
    intro c hc
    rcases List.mem_append.1 hc with hc | hc
    · have hdigit := Nat.isDigit_of_mem_toDigits (by omega) (by omega) hc
      rw [opens, Bool.or_eq_false_iff, decide_eq_false_iff_not, decide_eq_false_iff_not]
      constructor <;> rintro rfl <;> exact absurd hdigit (by decide)
    · rw [List.mem_singleton.1 hc]
      rfl

/-- A step is known by how it is written. -/
theorem eq_of_body (hopener : s.opener = t.opener) (hbody : s.body = t.body) : s = t := by
  cases s with
  | member key =>
    cases t with
    | member key' => exact congrArg Step.member (String.toList_inj.1 hbody)
    | item index => simp [opener] at hopener
  | item index =>
    cases t with
    | member key => simp [opener] at hopener
    | item index' =>
      have hdigits : Nat.toDigits 10 index = Nat.toDigits 10 index' :=
        List.append_cancel_right hbody
      have hread := congrArg (fun digits => Nat.ofDigitChars 10 digits 0) hdigits
      exact congrArg Step.item (by simpa using hread)

end Step

namespace Place

variable {p q : Place}

/-- What is written for a place is nothing, or begins a step. -/
theorem takeWhile_text (p : Place) : (p.text.toList.takeWhile fun c => !opens c) = [] := by
  cases p with
  | nil => rfl
  | cons s p =>
    rw [text_cons, String.toList_append, Step.toList_text, List.cons_append,
      List.takeWhile_cons_of_neg]
    simp [Step.opens_opener]

/-- Up to the next character that `opens` a step stands the first one. -/
theorem takeWhile_append_text {body : List Char} (h : ∀ c ∈ body, opens c = false) (p : Place) :
    ((body ++ p.text.toList).takeWhile fun c => !opens c) = body := by
  rw [List.takeWhile_append_of_pos fun c hc => by simp [h c hc], takeWhile_text, List.append_nil]

/-- **Plain places are known by what is written for them**: `Place.text` tells them apart, even at
different depths. -/
theorem text_inj (hp : p.Plain) (hq : q.Plain) (h : p.text = q.text) : p = q := by
  induction p generalizing q with
  | nil => exact (text_eq_empty_iff.1 h.symm).symm
  | cons s p ih =>
    cases q with
    | nil => exact text_eq_empty_iff.1 h
    | cons t q =>
      have htext := congrArg String.toList h
      simp only [text_cons, String.toList_append, Step.toList_text, List.cons_append,
        List.cons.injEq] at htext
      obtain ⟨hopener, htail⟩ := htext
      -- neither body opens a step, so both end where the next step begins
      have hs : s.Plain := hp s (.head _)
      have ht : t.Plain := hq t (.head _)
      have hbody : s.body = t.body :=
        calc s.body
          _ = (s.body ++ (text p).toList).takeWhile fun c => !opens c :=
            (takeWhile_append_text hs.opens_body p).symm
          _ = (t.body ++ (text q).toList).takeWhile fun c => !opens c := by rw [htail]
          _ = t.body := takeWhile_append_text ht.opens_body q
      have hrest : text p = text q := by
        rw [hbody] at htail
        exact String.toList_inj.1 (List.append_cancel_left htail)
      rw [Step.eq_of_body hopener hbody,
        ih (fun u hu => hp u (.tail _ hu)) (fun u hu => hq u (.tail _ hu)) hrest]

/-- Of `p` and `q`, one is the value as a whole and the other its member without a name: both have
the path `rootPath`. -/
def Mistakable (p q : Place) : Prop :=
  p = [] ∧ q = [.member ""] ∨ p = [.member ""] ∧ q = []

instance (p q : Place) : Decidable (Mistakable p q) :=
  inferInstanceAs (Decidable (p = [] ∧ q = [.member ""] ∨ p = [.member ""] ∧ q = []))

theorem plain_nameless : Plain [.member ""] := by
  intro s hs
  obtain rfl := List.mem_singleton.1 hs
  exact fun c hc => absurd hc (by simp)

/-- Of plain places, the member without a name is the one with the path of the whole. -/
theorem path_eq_root_iff (hp : p.Plain) : p.path = rootPath ↔ p = [] ∨ p = [.member ""] := by
  rw [path]
  split
  · next h => simp [h]
  · next h =>
    have hroot : rootPath = text [.member ""] := by simp [rootPath, Step.text]
    rw [or_iff_right h, hroot]
    exact ⟨text_inj hp plain_nameless, congrArg text⟩

/-- **Plain places have the same path only if they are the same**, or if they are `Mistakable`. -/
theorem path_eq_iff (hp : p.Plain) (hq : q.Plain) : p.path = q.path ↔ p = q ∨ Mistakable p q := by
  by_cases hnil : p = []
  · subst hnil
    rw [path, if_pos rfl, eq_comm, path_eq_root_iff hq]
    simp [Mistakable, eq_comm]
  · by_cases hnil' : q = []
    · subst hnil'
      rw [path.eq_def [], if_pos rfl, path_eq_root_iff hp]
      simp [Mistakable, hnil]
    · rw [path, path, if_neg hnil, if_neg hnil']
      simp only [Mistakable, hnil, hnil', false_and, and_false, or_false]
      exact ⟨text_inj hp hq, congrArg text⟩

end Place

/-! ## Reports by place -/

/-- The messages of the leaves at a place, from first to last. -/
def messagesAt (ls : List Leaf) (p : Place) : List String :=
  (ls.filter fun l => l.place = p).flatMap Leaf.messages

end Report

/-- A function that tells the members of `xs` apart leaves those that repeat an earlier one. -/
theorem List.eraseDups_map_of_inj {α β : Type} [BEq α] [LawfulBEq α] [BEq β] [LawfulBEq β]
    {f : α → β} {xs : List α} (h : ∀ x ∈ xs, ∀ y ∈ xs, f x = f y → x = y) :
    (xs.map f).eraseDups = xs.eraseDups.map f := by
  induction xs using List.reverseRecOn with
  | nil => rfl
  | append_singleton xs x ih =>
    have hmem : f x ∈ xs.map f ↔ x ∈ xs := by
      refine ⟨fun hx => ?_, List.mem_map_of_mem⟩
      obtain ⟨y, hy, heq⟩ := List.mem_map.1 hx
      exact h y (List.mem_append_left _ hy) x (by simp) heq ▸ hy
    have hrest := ih fun y hy z hz =>
      h y (List.mem_append_left _ hy) z (List.mem_append_left _ hz)
    rw [List.map_append, List.map_singleton, List.eraseDups_append_singleton,
      List.eraseDups_append_singleton, hrest]
    by_cases hx : x ∈ xs <;> simp [hmem, hx]

namespace Report

/-- **Where paths tell the places of leaves apart, a report is flattened by place**: an entry for
each place of `r.leaves`, with the messages at this place (`messagesAt`). -/
theorem pathHash_by_place {r : Report} (hformed : r.Formed)
    (h : ∀ l ∈ r.leaves, ∀ m ∈ r.leaves, l.path = m.path → l.place = m.place) :
    r.pathHash = (r.leaves.map Leaf.place).eraseDups.map fun p =>
      (p.path, (messagesAt r.leaves p).eraseDups) := by
  have hpaths : (r.leaves.map Leaf.path).eraseDups =
      (r.leaves.map Leaf.place).eraseDups.map Place.path := by
    rw [← List.eraseDups_map_of_inj, List.map_map]
    · rfl
    · intro p hp q hq hpq
      obtain ⟨l, hl, rfl⟩ := List.mem_map.1 hp
      obtain ⟨m, hm, rfl⟩ := List.mem_map.1 hq
      exact h l hl m hm hpq
  rw [(pathHash_gathers_leaves r hformed).1, hpaths, List.map_map]
  refine List.map_congr_left fun p hp => ?_
  obtain ⟨l, hl, rfl⟩ := List.mem_map.1 (List.mem_eraseDups.1 hp)
  have hfilter : (r.leaves.filter fun m => m.path = l.place.path) =
      r.leaves.filter fun m => m.place = l.place := by
    refine List.filter_congr fun m hm => ?_
    rw [decide_eq_decide]
    exact ⟨fun hpath => h m hm l hl hpath, fun hplace => congrArg Place.path hplace⟩
  show (_, (messagesUnder r.leaves l.place.path).eraseDups) = _
  rw [messagesUnder, hfilter, messagesAt]

end Report

namespace Input

open Report (Place Leaf)

/-- **Paths tell apart the places of plain names.** Of the leaves of the report `r` of `v`, two with
no point and no opening bracket in the names above them (`Place.Plain`) have the same path if and
only if they are at the same place, or one is about the value as a whole and the other about its
member without a name (`Place.Mistakable`). Where all leaves are plain and no two are mistakable,
`r.pathHash` has an entry for each place with a leaf, under a path of its own, with just the
messages of this place. -/
theorem paths_tell_places_apart [Regex.Engine] (defs : Dict Input) (i : Input) (v : Json)
    (r : Report) (h : i.call defs v = some (.error r)) :
    (∀ l ∈ r.leaves, ∀ m ∈ r.leaves, l.place.Plain → m.place.Plain →
      (l.path = m.path ↔ l.place = m.place ∨ Place.Mistakable l.place m.place)) ∧
    ((∀ l ∈ r.leaves, l.place.Plain) →
      (∀ l ∈ r.leaves, ∀ m ∈ r.leaves, ¬Place.Mistakable l.place m.place) →
      r.pathHash = (r.leaves.map Leaf.place).eraseDups.map fun p =>
        (p.path, (Report.messagesAt r.leaves p).eraseDups)) := by
  refine ⟨fun l _ m _ hl hm => Place.path_eq_iff hl hm, fun hplain hnot => ?_⟩
  refine Report.pathHash_by_place (about_of_call h).formed fun l hl m hm hpath => ?_
  exact ((Place.path_eq_iff (hplain l hl) (hplain m hm)).1 hpath).resolve_right (hnot l hl m hm)

end Input

namespace Input

open Report (Place Leaf)

attribute [local instance] Regex.Engine.standard

/-- The lines of an order, or a text: the first line fails twice, and so does the list of lines. -/
theorem paths_tell_places_apart_lines :
    let line : Input := .object [⟨"sku", .text none, true, none⟩, ⟨"count", .integer, true, none⟩]
    let i : Input := .either (.object [⟨"lines", .list line, true, none⟩])
      (.object [⟨"lines", .either (.text none) .null, true, none⟩])
    let v : Json := .object [("lines", .array [.object [("sku", .null)]])]
    let first : Report := .object [("sku", .message "must be a string"), ("count", .required)]
    let r : Report := .either (.object [("lines", .list [(0, first)])])
      (.object [("lines", .either (.message "must be a string") (.message "must be null"))])
    i.call [] v = some (.error r) ∧ (∀ l ∈ r.leaves, l.place.Plain) ∧
      (∀ l ∈ r.leaves, ∀ m ∈ r.leaves, ¬Place.Mistakable l.place m.place) ∧
      r.pathHash = [(".lines[0].sku", ["must be a string"]), (".lines[0].count", ["is required"]),
        (".lines", ["must be a string", "must be null"])] := by
  intro line i v first r
  have hcall : i.call [] v = some (.error r) := rfl
  have hplain : ∀ l ∈ r.leaves, l.place.Plain := by decide +kernel
  have hnot : ∀ l ∈ r.leaves, ∀ m ∈ r.leaves, ¬Place.Mistakable l.place m.place := by
    decide +kernel
  have hhash := (paths_tell_places_apart [] i v r hcall).2 hplain hnot
  exact ⟨hcall, hplain, hnot, hhash.trans (by decide +kernel)⟩

/-- A member with a point in its name shares its path with a member of a member, and the messages of
both stand under it. -/
theorem paths_confuse_dotted_name :
    let i : Input := .object [⟨"a.b", .integer, true, none⟩,
      ⟨"a", .object [⟨"b", .text none, true, none⟩], true, none⟩]
    let v : Json := .object [("a.b", .string "x"), ("a", .object [("b", .number (.int 1))])]
    let r : Report := .object [("a.b", .message "must be an integer"),
      ("a", .object [("b", .message "must be a string")])]
    i.call [] v = some (.error r) ∧
      ¬(∀ l ∈ r.leaves, ∀ m ∈ r.leaves, l.place ≠ m.place → l.path ≠ m.path) ∧
      r.pathHash = [(".a.b", ["must be an integer", "must be a string"])] :=
  ⟨rfl, by decide +kernel, by decide +kernel⟩

end Input

end JsonShape
