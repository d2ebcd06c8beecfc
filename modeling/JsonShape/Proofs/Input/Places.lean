import JsonShape.Proofs.Input.Rejected
import JsonShape.Proofs.Report.Leaves
import JsonShape.Regex.Pattern

/-!
# Reports and the values that they are about

A report has the shape of the value that it rejects: it reports members of objects and items of
arrays that are there, and members that are absent.

* `Report.About`: the report has been made of the value.
* `Input.about_of_call`: every report of a check has been made of the value that was checked.
* `About.formed`, `About.informative`, `About.places`: what follows for reports that are made of
  values, each by induction on how they are made.
* `Input.report_points_at_value`: no branch of a report is empty, and every leaf is about a place in
  the value or about a member that is absent from an object there.
-/

namespace JsonShape

open Report (Place Leaf)

/-! ## Places in a value -/

namespace Json

/-- The part of a value to which a step leads. -/
def part? : Json → Report.Step → Option Json
  | .object ms, .member key => Dict.get? ms key
  | .array xs, .item index => xs[index]?
  | _, _ => none

/-- The part of `v` at the place `p`. -/
def at? (v : Json) (p : Place) : Option Json := p.foldlM part? v

/-- The place `p` is that of a member that is absent from an object in `v`. -/
def Misses (v : Json) (p : Place) : Prop :=
  ∃ above key ms, p = above ++ [.member key] ∧ v.at? above = some (.object ms) ∧
    Dict.get? ms key = none

variable {v w : Json} {s : Report.Step} {p : Place}

@[simp] theorem at?_nil (v : Json) : v.at? [] = some v := rfl

@[simp] theorem at?_cons (v : Json) (s : Report.Step) (p : Place) :
    v.at? (s :: p) = (v.part? s).bind fun w => w.at? p := List.foldlM_cons

/-- A member that is absent from an object in the part `w` is absent from an object in the whole
`v`. -/
theorem Misses.under (hs : v.part? s = some w) (h : w.Misses p) : v.Misses (s :: p) := by
  obtain ⟨above, key, ms, rfl, habove, hkey⟩ := h
  exact ⟨s :: above, key, ms, rfl, by rw [at?_cons, hs, Option.bind_some, habove], hkey⟩

end Json

/-! ## Reports of values -/

namespace Report

/-- `About r v` says that the report `r` has been made of the value `v`. -/
inductive About : Report → Json → Prop
  /-- A message about the value itself. -/
  | message (text : String) (v : Json) : About (.message text) v
  /-- Reports of members: of the ones that are there, and of ones that are absent. -/
  | object {ms : Dict Json} {reports : Dict Report} (hne : reports ≠ [])
    (hkeys : reports.names.Nodup)
    (hpart : ∀ e ∈ reports, ∀ x, ms.get? e.1 = some x → About e.2 x)
    (habsent : ∀ e ∈ reports, ms.get? e.1 = none → e.2 = .required) :
    About (.object reports) (.object ms)
  /-- Reports of items. -/
  | list {xs : List Json} {reports : List (Nat × Report)} (hne : reports ≠ [])
    (hindices : (reports.map Prod.fst).Pairwise (· < ·)) (hrange : ∀ e ∈ reports, e.1 < xs.length)
    (hpart : ∀ e ∈ reports, ∀ x, xs[e.1]? = some x → About e.2 x) :
    About (.list reports) (.array xs)
  /-- Both sides of a union are about the same value. -/
  | either {left right : Report} {v : Json} (hleft : About left v) (hright : About right v) :
    About (.either left right) v
  /-- Both sides of an inheritance are about the same value. -/
  | merged {parent child : Report} {v : Json} (hparent : About parent v) (hchild : About child v) :
    About (.merged parent child) v

/-- No report of members or items is empty, and every branch ends in at least one message. -/
inductive Informative : Report → Prop
  | value {messages : List String} (hne : messages ≠ []) : Informative (.value messages)
  | object {members : List (String × Report)} (hne : members ≠ [])
    (h : ∀ e ∈ members, Informative e.2) : Informative (.object members)
  | list {items : List (Nat × Report)} (hne : items ≠ []) (h : ∀ e ∈ items, Informative e.2) :
    Informative (.list items)
  | either {left right : Report} (hleft : Informative left) (hright : Informative right) :
    Informative (.either left right)
  | merged {parent child : Report} (hparent : Informative parent) (hchild : Informative child) :
    Informative (.merged parent child)

/-- What the leaf `l` says is about a part of `v`, or it is that an absent member is required. -/
def Leaf.PointsAt (l : Leaf) (v : Json) : Prop :=
  (∃ u, v.at? l.place = some u) ∨ v.Misses l.place ∧ l.messages = ["is required"]

variable {r : Report} {v w : Json} {s : Step} {l : Leaf}

/-- A leaf `l` that points at a part `w` points, below the step `s`, at the whole `v`. -/
theorem Leaf.PointsAt.under (hs : v.part? s = some w) (h : l.PointsAt w) :
    (l.under s).PointsAt v := by
  rcases h with ⟨u, hu⟩ | ⟨hmisses, hmessages⟩
  · exact Or.inl ⟨u, by simp [Leaf.under, hs, hu]⟩
  · exact Or.inr ⟨hmisses.under hs, hmessages⟩

/-- Reports of values name no member twice, and their indices ascend. -/
theorem About.formed (h : r.About v) : r.Formed := by
  induction h with
  | message text v => exact .value _
  | @object ms reports _ hkeys _ habsent ih =>
    refine .object hkeys fun e he => ?_
    cases hx : ms.get? e.1 with
    | none => exact habsent e he hx ▸ .value _
    | some x => exact ih e he x hx
  | list _ hindices hrange _ ih =>
    exact .list hindices fun e he => ih e he _ (List.getElem?_eq_getElem (hrange e he))
  | either _ _ ihl ihr => exact .either ihl ihr
  | merged _ _ ihp ihc => exact .merged ihp ihc

/-- Reports of values have no empty branch. -/
theorem About.informative (h : r.About v) : r.Informative := by
  induction h with
  | message text v => exact .value (List.cons_ne_nil _ _)
  | @object ms reports hne _ _ habsent ih =>
    refine .object hne fun e he => ?_
    cases hx : ms.get? e.1 with
    | none => exact habsent e he hx ▸ .value (List.cons_ne_nil _ _)
    | some x => exact ih e he x hx
  | list hne _ hrange _ ih =>
    exact .list hne fun e he => ih e he _ (List.getElem?_eq_getElem (hrange e he))
  | either _ _ ihl ihr => exact .either ihl ihr
  | merged _ _ ihp ihc => exact .merged ihp ihc

/-- The leaves of a report without empty branches have messages. -/
theorem Informative.messages_ne_nil (h : r.Informative) : ∀ l ∈ r.leaves, l.messages ≠ [] := by
  induction h with
  | value hne => simpa using hne
  | object _ _ ih =>
    intro l hl
    obtain ⟨e, he, m, hm, rfl⟩ := mem_leaves_object.1 hl
    exact ih e he m hm
  | list _ _ ih =>
    intro l hl
    obtain ⟨e, he, m, hm, rfl⟩ := mem_leaves_list.1 hl
    exact ih e he m hm
  | either _ _ ihl ihr => exact fun l hl => (List.mem_append.1 hl).elim (ihl l) (ihr l)
  | merged _ _ ihp ihc => exact fun l hl => (List.mem_append.1 hl).elim (ihp l) (ihc l)

/-- **The leaves of a report point at the value that the report is about.** -/
theorem About.places (h : r.About v) : ∀ l ∈ r.leaves, l.PointsAt v := by
  induction h with
  | message text v =>
    intro l hl
    obtain rfl := List.mem_singleton.1 hl
    exact Or.inl ⟨v, rfl⟩
  | @object ms reports _ _ _ habsent ih =>
    intro l hl
    obtain ⟨e, he, m, hm, rfl⟩ := mem_leaves_object.1 hl
    cases hx : ms.get? e.1 with
    | none =>
      rw [habsent e he hx] at hm
      obtain rfl := List.mem_singleton.1 hm
      exact Or.inr ⟨⟨[], e.1, ms, rfl, rfl, hx⟩, rfl⟩
    | some x => exact (ih e he x hx m hm).under hx
  | @list xs reports _ _ hrange _ ih =>
    intro l hl
    obtain ⟨e, he, m, hm, rfl⟩ := mem_leaves_list.1 hl
    have hlt := hrange e he
    have hx : xs[e.1]? = some xs[e.1] := List.getElem?_eq_getElem hlt
    exact (ih e he _ hx m hm).under hx
  | either _ _ ihl ihr => exact fun l hl => (List.mem_append.1 hl).elim (ihl l) (ihr l)
  | merged _ _ ihp ihc => exact fun l hl => (List.mem_append.1 hl).elim (ihp l) (ihc l)

end Report

/-! ## Reports of checks -/

namespace Input

variable {v : Json} {r : Report}

/-- A refined value is reported as it is, or with the `message` of the `test`. -/
theorem about_of_refine {c : Checked} {test : Json → Bool} {message : String}
    (h : Checked.refine c test message = .error r) (hc : ∀ r, c = .error r → r.About v) :
    r.About v := by
  cases c with
  | error e => exact hc r h
  | ok w =>
    obtain ⟨-, rfl⟩ := Checked.check_eq_error.1 h
    exact .message _ _

variable [Regex.Engine] {deferred : String → Json → Outcome} {defs : Dict Input} {i : Input}

/-- **What is rejected is reported as the value that it is**, if that is so of what `deferred`
reports. -/
theorem about_of_callWith (hdeferred : ∀ name u r, deferred name u = some (.error r) → r.About u)
    (h : callWith deferred i v = some (.error r)) : r.About v := by
  -- the value is the same for shapes around one another, and a part of it for members and items
  induction i generalizing v r with
  | text _ | number | integer | boolean | null =>
    obtain ⟨-, rfl⟩ := Checked.check_eq_error.1 (Option.some.inj h)
    exact .message _ _
  | any => cases h
  | object members ih =>
    cases v with
    | object ms =>
      obtain ⟨-, hne, rfl⟩ := callWith_object_eq_error.1 h
      refine .object hne nodup_names_memberReports (fun e he x hx => ?_) fun e he hx => ?_
      · obtain ⟨m, hm, hkey, hr⟩ := mem_memberReports.1 he
        rw [memberReport, hkey, hx] at hr
        exact ih m (Member.mem_of_mem_distinct hm) (Checked.bind_report?_eq_some.1 hr)
      · obtain ⟨m, -, hkey, hr⟩ := mem_memberReports.1 he
        rw [memberReport, hkey, hx] at hr
        exact (Option.some.inj (Option.ite_none_right_eq_some.1 hr).2).symm
    | _ =>
      obtain rfl := Except.error.inj (Option.some.inj h)
      exact .message _ _
  | merge parent child ihp ihc =>
    rw [callWith_merge] at h
    obtain ⟨p, hp, h⟩ := Option.bind_eq_some_iff.1 h
    obtain ⟨c, hc, h⟩ := Option.bind_eq_some_iff.1 h
    rcases Checked.merge_eq_error.1 (Option.some.inj h) with
      ⟨rfl, -⟩ | ⟨rfl, -⟩ | ⟨p, c, rfl, rfl, rfl⟩
    · exact ihp hp
    · exact ihc hc
    · exact .merged (ihp hp) (ihc hc)
  | list item ih =>
    cases v with
    | array xs =>
      obtain ⟨-, hne, rfl⟩ := callWith_list_eq_error.1 h
      refine .list hne (pairwise_itemReports _ _) (fun e he => ?_) fun e he x hx => ?_
      · obtain ⟨x, hx, -⟩ := mem_itemReports.1 he
        exact (List.getElem?_eq_some_iff.1 hx).1
      · obtain ⟨y, hy, hr⟩ := mem_itemReports.1 he
        obtain rfl : x = y := Option.some.inj (hx.symm.trans hy)
        exact ih hr
    | _ =>
      obtain rfl := Except.error.inj (Option.some.inj h)
      exact .message _ _
  | either left right ihl ihr =>
    rw [callWith_either] at h
    obtain ⟨c, hc, h⟩ := Option.bind_eq_some_iff.1 h
    cases c with
    | ok w => cases h
    | error l =>
      obtain ⟨d, hd, h⟩ := Option.map_eq_some_iff.1 h
      cases d with
      | ok w => cases h
      | error e =>
        obtain rfl := Except.error.inj h
        exact .either (ihl hc) (ihr hd)
  | optional inner ih =>
    cases v with
    | null => cases h
    | _ => exact ih h
  | enum inner _ ih | pattern inner _ ih | inRange inner _ ih | multipleOf inner _ ih =>
    obtain ⟨c, hc, h⟩ := Option.bind_eq_some_iff.1 h
    exact about_of_refine (Option.some.inj h) fun r hr => ih (hr ▸ hc)
  | mapped inner f ih =>
    obtain ⟨c, hc, h⟩ := Option.map_eq_some_iff.1 h
    cases c with
    | ok w => cases h
    | error e => exact Except.error.inj h ▸ ih hc
  | described inner _ ih | referenced inner _ ih => exact ih h
  | defer name => exact hdeferred name v r h

/-- The same of any number of lookups inside one another, up to `limit`. -/
theorem about_of_callAt (limit : Nat) (h : callAt defs limit i v = some (.error r)) :
    r.About v := by
  induction limit generalizing i v r with
  | zero =>
    rw [callAt_eq] at h
    exact about_of_callWith (fun name u r hr => by simp [lookup_zero] at hr) h
  | succ limit ih =>
    rw [callAt_eq] at h
    refine about_of_callWith (fun name u r hr => ?_) h
    obtain ⟨d, -, hd⟩ := Option.bind_eq_some_iff.1 (lookup_succ limit name u ▸ hr)
    exact ih hd

/-- Every report `r` of a check has been made of the value `v` that was checked. -/
theorem about_of_call (h : i.call defs v = some (.error r)) : r.About v := about_of_callAt _ h

/-- **Reports are informative and point at the value.** Let `i` report `r` of the value `v`. No
report of members or items in `r` is empty, and every branch ends in messages (`Informative`). Each
leaf is about a part of `v`, the one at `l.place`, or it says no more than that a member is required
which is absent from an object in `v` (`Misses`). -/
theorem report_points_at_value (defs : Dict Input) (i : Input) (v : Json) (r : Report)
    (h : i.call defs v = some (.error r)) :
    r.Informative ∧ ∀ l ∈ r.leaves, l.messages ≠ [] ∧
      ((∃ u, v.at? l.place = some u) ∨ v.Misses l.place ∧ l.messages = ["is required"]) := by
  have habout := about_of_call h
  refine ⟨habout.informative, fun l hl => ⟨?_, habout.places l hl⟩⟩
  exact habout.informative.messages_ne_nil l hl

end Input

namespace Input

attribute [local instance] Regex.Engine.standard

/-- Trees of numbered nodes, or a text. One child of the tree has no number, and so has the tree. -/
theorem report_points_at_value_tree :
    let own : Input := .object [⟨"children", .list (.defer "tree"), false, none⟩]
    let numbered : Input := .object [⟨"number", .integer, true, none⟩]
    let defs : Dict Input := [("tree", .referenced (.merge numbered own) "Tree")]
    let i : Input := .either (.mapped (.defer "tree") fun _ => .null) (.text none)
    let leaf : Json := .object [("number", .number (.int 1))]
    let v : Json := .object [("children", .array [leaf, .object [("number", .null)]])]
    let child : Report := .object [("number", .message "must be an integer")]
    let r : Report := .either (.merged (.object [("number", .required)])
      (.object [("children", .list [(1, child)])])) (.message "must be a string")
    i.call defs v = some (.error r) ∧
      r.leaves.map Leaf.path = [".number", ".children[1].number", "."] ∧
      r.Informative ∧ ∀ l ∈ r.leaves, l.messages ≠ [] ∧
        ((∃ u, v.at? l.place = some u) ∨ v.Misses l.place ∧ l.messages = ["is required"]) := by
  intro own numbered defs i leaf v child r
  have hcall : i.call defs v = some (.error r) := rfl
  exact ⟨hcall, by decide +kernel, report_points_at_value defs i v r hcall⟩

end Input

end JsonShape
