import JsonShape.Proofs.Input.Calls
import JsonShape.Proofs.Input.Places
import JsonShape.Regex.Pattern

/-!
# Checking part by part

Whether a part of a value is accepted, and what is reported of it, is a matter of the part alone.
Other parts do not count, however deep in records and lists they are.

* `call_object_eq_ok`, `call_object_eq_error`, `call_list_eq_ok`, `call_list_eq_error`: an object
  and an array are accepted if their parts are, and otherwise their failing parts are reported.
* `Checked.reportAt`: what a check reports at a place.
* `Input.Below`: an input that checks what stands at a place, with nothing but records and lists on
  the way there; `Below.exists_call`: it reports there what it reports alone.
* `Below.reportAt_eq`: two values that agree on a part get the same report of it.
-/

namespace JsonShape

open Report (Step Place)

/-! ## Reports at a place -/

namespace Report

/-- The report of the part to which a step leads. -/
def part? : Report → Step → Option Report
  | .object members, .member key => Dict.get? members key
  | .list items, .item index => items.lookup index
  | _, _ => none

/-- The report of the part at the place `p`. -/
def at? (r : Report) (p : Place) : Option Report := p.foldlM part? r

@[simp] theorem at?_nil (r : Report) : r.at? [] = some r := rfl

@[simp] theorem at?_cons (r : Report) (s : Step) (p : Place) :
    r.at? (s :: p) = (r.part? s).bind fun r => r.at? p := List.foldlM_cons

@[simp] theorem part?_message (text : String) (s : Step) : (message text).part? s = none := by
  cases s <;> rfl

@[simp] theorem part?_object_nil (s : Step) : (object []).part? s = none := by
  cases s <;> rfl

@[simp] theorem part?_list_nil (s : Step) : (list []).part? s = none := by
  cases s <;> rfl

end Report

namespace Checked

/-- What is reported at `p`, if anything is. -/
def reportAt (c : Checked) (p : Place) : Option Report := (report? c).bind fun r => r.at? p

variable {s : Step} {p : Place}

@[simp] theorem reportAt_ok (w : Json) (p : Place) : reportAt (.ok w) p = none := rfl

@[simp] theorem reportAt_error (r : Report) (p : Place) : reportAt (.error r) p = r.at? p := rfl

/-- What is reported of a part of an object is reported under its key, among `memberFailures`. -/
theorem reportAt_ofMembers (rs : List (String × Except Report (Option Json))) (s : Step)
    (p : Place) :
    (ofMembers rs).reportAt (s :: p) = (Report.object (memberFailures rs)).at? (s :: p) := by
  unfold ofMembers
  split
  · next h => simp [h]
  · rfl

/-- What is reported of a part of an array is reported under its index, among `failures`. -/
theorem reportAt_ofItems (rs : List Checked) (s : Step) (p : Place) :
    (ofItems rs).reportAt (s :: p) = (Report.list (failures 0 rs)).at? (s :: p) := by
  unfold ofItems
  split
  · next h => simp [h]
  · rfl

/-- A `test` of the value as a whole changes no report of a part, at `s :: p`. -/
theorem reportAt_refine (c : Checked) (test : Json → Bool) (message : String) (s : Step)
    (p : Place) : (refine c test message).reportAt (s :: p) = c.reportAt (s :: p) := by
  cases c with
  | error r => rfl
  | ok w =>
    rw [refine, check]
    split <;> simp

end Checked

namespace Input

variable [Regex.Engine] {defs : Dict Input} {i j a : Input} {v v' x x' : Json} {c c' : Checked}
  {s : Step}
  {q : Place} {members : List (Member Input)} {ms : Dict Json} {xs : List Json}

/-- What the definition `name` means, by calls. -/
abbrev called (defs : Dict Input) (name : String) (v : Json) : Outcome :=
  (defs.get? name).bind fun i => i.call defs v

theorem callWith_called (defs : Dict Input) : callWith (called defs) = call defs := by
  funext i v
  exact (call_eq defs i v).symm

/-- A call with a result `c` is an answer. -/
theorem answers_of_call (h : i.call defs v = some c) : Answers (called defs) i v := by
  rw [Answers, callWith_called, h]
  rfl

/-! ## Objects and arrays -/

/-- **An object is accepted if the required members are there and all that are there are accepted
alone.** Members that are declared again count with their last declaration, in
`Member.distinct members`. -/
theorem call_object_eq_ok : (∃ w, call defs (.object members) (.object ms) = some (.ok w)) ↔
    ∀ m ∈ Member.distinct members, (m.required → Dict.contains ms m.key) ∧
      ∀ x, ms.get? m.key = some x → ∃ y, m.value.call defs x = some (.ok y) := by
  have h : Accepts (called defs) (.object members) (.object ms) ↔ _ := accepts_object
  simpa only [Accepts, callWith_called, Json.object.injEq, exists_eq_left'] using h

/-- **Otherwise just those members are reported that fail alone**, in the order of their
declarations: the report is `memberReports`, if there is an answer for each member. -/
theorem call_object_eq_error {r : Report} :
    call defs (.object members) (.object ms) = some (.error r) ↔
      (∀ m ∈ Member.distinct members, ∀ x, ms.get? m.key = some x →
        ∃ c, m.value.call defs x = some c) ∧
      memberReports (call defs) members ms ≠ [] ∧
        r = .object (memberReports (call defs) members ms) := by
  have h : callWith (called defs) (.object members) (.object ms) = some (.error r) ↔ _ :=
    callWith_object_eq_error
  rw [answers_object] at h
  simpa only [Answers, callWith_called, Option.isSome_iff_exists, Json.object.injEq,
    forall_eq'] using h

/-- **An array `xs` is accepted if `a` accepts all items alone.** -/
theorem call_list_eq_ok : (∃ w, call defs (.list a) (.array xs) = some (.ok w)) ↔
    ∀ x ∈ xs, ∃ y, a.call defs x = some (.ok y) := by
  have h : Accepts (called defs) (.list a) (.array xs) ↔ _ := accepts_list
  simpa only [Accepts, callWith_called, Json.array.injEq, exists_eq_left'] using h

/-- **Otherwise just those items are reported that fail alone**, by ascending index: the report is
`itemReports`, if there is an answer for each item. -/
theorem call_list_eq_error {r : Report} :
    call defs (.list a) (.array xs) = some (.error r) ↔
      (∀ x ∈ xs, ∃ c, a.call defs x = some c) ∧
        itemReports (a.call defs) xs ≠ [] ∧ r = .list (itemReports (a.call defs) xs) := by
  have h : callWith (called defs) (.list a) (.array xs) = some (.error r) ↔ _ :=
    callWith_list_eq_error
  rw [answers_list] at h
  simpa only [Answers, callWith_called, Option.isSome_iff_exists, Json.array.injEq,
    forall_eq'] using h

theorem reportAt_call_object (h : call defs (.object members) (.object ms) = some c) (s : Step)
    (p : Place) : c.reportAt (s :: p) =
      (Report.object (memberReports (call defs) members ms)).at? (s :: p) := by
  rw [← callWith_called] at h ⊢
  obtain ⟨rs, rfl, hreports⟩ := report?_callWith_object h
  rw [Checked.reportAt_ofMembers, hreports]

theorem reportAt_call_list (h : call defs (.list a) (.array xs) = some c) (s : Step) (p : Place) :
    c.reportAt (s :: p) = (Report.list (itemReports (a.call defs) xs)).at? (s :: p) := by
  rw [← callWith_called] at h ⊢
  obtain ⟨rs, rfl, hreports⟩ := report?_callWith_list h
  rw [Checked.reportAt_ofItems, hreports]

/-- **What is reported of a member is what its input reports of it alone.** `c` is the answer for
the object `ms`, and `d` is that of `m.value` for the member `x`. -/
theorem exists_call_member {m : Member Input}
    (h : call defs (.object members) (.object ms) = some c) (hm : m ∈ Member.distinct members)
    (hx : ms.get? m.key = some x) :
    ∃ d, m.value.call defs x = some d ∧ ∀ p, c.reportAt (.member m.key :: p) = d.reportAt p := by
  have hanswers : Answers (called defs) m.value x :=
    answers_object.1 (answers_of_call h) ms rfl m hm x hx
  obtain ⟨d, hd⟩ := Option.isSome_iff_exists.1 hanswers
  rw [callWith_called] at hd
  refine ⟨d, hd, fun p => ?_⟩
  rw [reportAt_call_object h, Report.at?_cons, Report.part?, get?_memberReports hm, memberReport,
    hx]
  show ((m.value.call defs x).bind Checked.report?).bind _ = _
  rw [hd]
  rfl

/-- **What is reported of an item is what its input reports of it alone.** `c` is the answer for the
array `xs`, and `d` is that of `a` for the item `x`. -/
theorem exists_call_item {n : Nat} (h : call defs (.list a) (.array xs) = some c)
    (hx : xs[n]? = some x) :
    ∃ d, a.call defs x = some d ∧ ∀ p, c.reportAt (.item n :: p) = d.reportAt p := by
  have hanswers : Answers (called defs) a x :=
    answers_list.1 (answers_of_call h) xs rfl x (List.mem_of_getElem? hx)
  obtain ⟨d, hd⟩ := Option.isSome_iff_exists.1 hanswers
  rw [callWith_called] at hd
  refine ⟨d, hd, fun p => ?_⟩
  rw [reportAt_call_list h, Report.at?_cons, Report.part?, lookup_itemReports, hx, Option.bind_some,
    hd]
  rfl

/-! ## Parts of parts -/

/-- `Below defs i q j` says that `j` checks what stands at the place `q` in the values that `i`
checks. On the way are records and lists, definitions, and shapes that check a single shape on the
same value (`onSame`). -/
inductive Below (defs : Dict Input) : Input → Place → Input → Prop
  | here (i : Input) : Below defs i [] i
  | member {members : List (Member Input)} {m : Member Input} {q : Place} {j : Input}
    (hm : m ∈ Member.distinct members) (h : Below defs m.value q j) :
    Below defs (.object members) (.member m.key :: q) j
  | item {a j : Input} {q : Place} (n : Nat) (h : Below defs a q j) :
    Below defs (.list a) (.item n :: q) j
  | layer {i a j : Input} {q : Place} (hi : i.onSame = [a]) (h : Below defs a q j) :
    Below defs i q j
  | lookup {name : String} {i j : Input} {q : Place} (hi : defs.get? name = some i)
    (h : Below defs i q j) : Below defs (.defer name) q j

/-- A record and an object, or a list and an array: a value that the input checks part by part. -/
def ChecksParts : Input → Json → Prop
  | .object _, .object _ | .list _, .array _ => True
  | _, _ => False

omit [Regex.Engine] in
/-- A value `v` with a part at `q`, or which is itself the part `x`, is not null if `x` is not. -/
theorem ne_null_of_at? (h : v.at? q = some x) (hx : x ≠ .null) : v ≠ .null := by
  rintro rfl
  cases q with
  | nil => exact hx (Option.some.inj h).symm
  | cons s q => simp [Json.part?] at h

/-- A shape `i` that checks a single shape `a` on the same value reports of the parts what `a`
does. -/
theorem exists_call_of_onSame (hi : i.onSame = [a]) (hv : v ≠ .null)
    (h : i.call defs v = some c) :
    ∃ d, a.call defs v = some d ∧ ∀ s p, c.reportAt (s :: p) = d.reportAt (s :: p) := by
  rw [← callWith_called] at h ⊢
  cases i with
  | merge _ _ | either _ _ => simp [onSame] at hi
  | optional inner =>
    obtain rfl : inner = a := List.singleton_inj.1 hi
    cases v with
    | null => exact absurd rfl hv -- null is accepted without a look at the shape inside
    | _ => exact ⟨c, h, fun _ _ => rfl⟩
  | enum inner _ | pattern inner _ | inRange inner _ | multipleOf inner _ =>
    obtain rfl : inner = a := List.singleton_inj.1 hi
    obtain ⟨d, hd, h⟩ := Option.bind_eq_some_iff.1 h
    obtain rfl := Option.some.inj h
    exact ⟨d, hd, Checked.reportAt_refine d _ _⟩
  | mapped inner f =>
    obtain rfl : inner = a := List.singleton_inj.1 hi
    obtain ⟨d, hd, rfl⟩ := Option.map_eq_some_iff.1 h
    exact ⟨d, hd, fun s p => by rw [Checked.reportAt, Checked.report?_map, Checked.reportAt]⟩
  | described inner _ | referenced inner _ =>
    obtain rfl : inner = a := List.singleton_inj.1 hi
    exact ⟨c, h, fun _ _ => rfl⟩
  | _ => simp [onSame] at hi

/-- **What is reported of the parts of what stands at a place is what the input there reports of
them alone.** `c` is the answer of `i` for `v`, and `d` that of `j` for the value `x` at `q`. -/
theorem Below.exists_call (h : Below defs i q j) (hx : v.at? q = some x) (hnull : x ≠ .null)
    (hc : i.call defs v = some c) :
    ∃ d, j.call defs x = some d ∧ ∀ s p, c.reportAt (q ++ s :: p) = d.reportAt (s :: p) := by
  induction h generalizing v c with
  | here i =>
    obtain rfl := Option.some.inj hx
    exact ⟨c, hc, fun _ _ => rfl⟩
  | @member members m q j hm _ ih =>
    obtain ⟨y, hy, hyx⟩ := Option.bind_eq_some_iff.1 (Json.at?_cons v _ q ▸ hx)
    cases v with
    | object ms =>
      obtain ⟨d, hd, hreports⟩ := exists_call_member hc hm hy
      obtain ⟨e, he, hparts⟩ := ih hyx hd
      exact ⟨e, he, fun s p => (hreports _).trans (hparts s p)⟩
    | _ => cases hy
  | @item a j q n _ ih =>
    obtain ⟨y, hy, hyx⟩ := Option.bind_eq_some_iff.1 (Json.at?_cons v _ q ▸ hx)
    cases v with
    | array xs =>
      obtain ⟨d, hd, hreports⟩ := exists_call_item hc hy
      obtain ⟨e, he, hparts⟩ := ih hyx hd
      exact ⟨e, he, fun s p => (hreports _).trans (hparts s p)⟩
    | _ => cases hy
  | @layer i a j q hi _ ih =>
    obtain ⟨d, hd, hreports⟩ := exists_call_of_onSame hi (ne_null_of_at? hx hnull) hc
    obtain ⟨e, he, hparts⟩ := ih hx hd
    refine ⟨e, he, fun s p => ?_⟩
    rw [← hparts s p]
    -- of the value itself a layer may report otherwise, so the first step is needed, wherever it is
    cases q with
    | nil => exact hreports s p
    | cons t q => exact hreports t (q ++ s :: p)
  | lookup hi _ ih =>
    rw [call_eq] at hc
    obtain ⟨d, hd, hcall⟩ := Option.bind_eq_some_iff.1 hc
    obtain rfl := Option.some.inj (hi.symm.trans hd)
    exact ih hx hcall

/-- What `j` reports of a part depends on this part alone: `x` and `x'` agree on `s`, and so do the
reports of them below `s`. -/
theorem reportAt_congr (hx : j.ChecksParts x) (hx' : j.ChecksParts x')
    (hpart : x.part? s = x'.part? s) (hc : j.call defs x = some c) (hc' : j.call defs x' = some c')
    (p : Place) : c.reportAt (s :: p) = c'.reportAt (s :: p) := by
  cases j with
  | object members =>
    cases x with
    | object ms =>
      cases x' with
      | object ms' =>
        rw [reportAt_call_object hc, reportAt_call_object hc', Report.at?_cons, Report.at?_cons]
        cases s with
        | item n => rfl
        | member k => rw [Report.part?, Report.part?, get?_memberReports_congr hpart]
      | _ => exact hx'.elim
    | _ => exact hx.elim
  | list a =>
    cases x with
    | array xs =>
      cases x' with
      | array xs' =>
        rw [reportAt_call_list hc, reportAt_call_list hc', Report.at?_cons, Report.at?_cons]
        cases s with
        | member k => rfl
        | item n =>
          have hitem : xs[n]? = xs'[n]? := hpart
          rw [Report.part?, Report.part?, lookup_itemReports, lookup_itemReports, hitem]
      | _ => exact hx'.elim
    | _ => exact hx.elim
  | _ => exact hx.elim

/-- **Two values that agree on a part get the same report of it**, however they differ elsewhere:
`v` and `v'` have `x` and `x'` at `q`, which agree on the part `s`. -/
theorem Below.reportAt_eq (h : Below defs i q j) (hx : v.at? q = some x) (hx' : v'.at? q = some x')
    (hparts : j.ChecksParts x) (hparts' : j.ChecksParts x') (hpart : x.part? s = x'.part? s)
    (hc : i.call defs v = some c) (hc' : i.call defs v' = some c') :
    c.reportAt (q ++ [s]) = c'.reportAt (q ++ [s]) := by
  have hnull : ∀ {y : Json}, j.ChecksParts y → y ≠ .null := by
    rintro _ hy rfl
    cases j <;> exact hy.elim
  obtain ⟨d, hd, hreports⟩ := h.exists_call hx (hnull hparts) hc
  obtain ⟨d', hd', hreports'⟩ := h.exists_call hx' (hnull hparts') hc'
  rw [hreports, hreports']
  exact reportAt_congr hparts hparts' hpart hd hd' []

/-- **Checking is exhaustive and local.** An object `ms` is accepted exactly if the required
`members` are there and all declared ones that are there are accepted alone; otherwise exactly the
failing ones are reported, in the order of their declarations, each as it is reported alone
(`memberReports`). An array `xs` is accepted exactly if `a` accepts all items alone; otherwise
exactly the failing ones are reported, by ascending index, each as it is reported alone
(`itemReports`). And where two values `v` and `v'` have at a place `q` objects, or arrays, that
agree on a part `s`, the same is reported of this part, whatever shapes lead to `q`. -/
theorem checks_parts_alone (defs : Dict Input) :
    (∀ members ms,
      ((∃ w, call defs (.object members) (.object ms) = some (.ok w)) ↔
        ∀ m ∈ Member.distinct members, (m.required → Dict.contains ms m.key) ∧
          ∀ x, Dict.get? ms m.key = some x → ∃ y, m.value.call defs x = some (.ok y)) ∧
      ∀ r, call defs (.object members) (.object ms) = some (.error r) ↔
        (∀ m ∈ Member.distinct members, ∀ x, Dict.get? ms m.key = some x →
          ∃ c, m.value.call defs x = some c) ∧
        memberReports (call defs) members ms ≠ [] ∧
          r = .object (memberReports (call defs) members ms)) ∧
    (∀ a xs,
      ((∃ w, call defs (.list a) (.array xs) = some (.ok w)) ↔
        ∀ x ∈ xs, ∃ y, a.call defs x = some (.ok y)) ∧
      ∀ r, call defs (.list a) (.array xs) = some (.error r) ↔
        (∀ x ∈ xs, ∃ c, a.call defs x = some c) ∧
        itemReports (a.call defs) xs ≠ [] ∧ r = .list (itemReports (a.call defs) xs)) ∧
    ∀ i q j, Below defs i q j → ∀ v v' x x' c c',
      v.at? q = some x → v'.at? q = some x' → j.ChecksParts x → j.ChecksParts x' →
      i.call defs v = some c → i.call defs v' = some c' →
      ∀ s, x.part? s = x'.part? s → c.reportAt (q ++ [s]) = c'.reportAt (q ++ [s]) := by
  refine ⟨fun members ms => ?_, fun a xs => ?_, ?_⟩
  · exact ⟨call_object_eq_ok, fun r => call_object_eq_error⟩
  · exact ⟨call_list_eq_ok, fun r => call_list_eq_error⟩
  · intro i q j hbelow v v' x x' c c' hx hx' hparts hparts' hc hc' s hpart
    exact hbelow.reportAt_eq hx hx' hparts hparts' hpart hc hc'

end Input

namespace Input

attribute [local instance] Regex.Engine.standard

/-- Two orders that agree on the count of one line: it is reported in both, although they differ in
the other line, in the rest of this line and in the note. -/
theorem checks_parts_alone_order :
    let line : Input := .object [⟨"sku", .text none, true, none⟩, ⟨"count", .integer, true, none⟩]
    let order : Input := .object [⟨"lines", .list (.defer "line"), true, none⟩,
      ⟨"note", .text none, false, none⟩]
    let defs : Dict Input := [("line", .referenced line "Line")]
    let i : Input := .described order "An order."
    let v : Json := .object [("lines", .array [.null, .object [("count", .string "two")]])]
    let v' : Json := .object [("note", .null),
      ("lines", .array [.object [], .object [("sku", .string "a"), ("count", .string "two")]])]
    ∃ c c', i.call defs v = some c ∧ i.call defs v' = some c' ∧
      c.reportAt [.member "lines", .item 1, .member "count"] =
        c'.reportAt [.member "lines", .item 1, .member "count"] ∧
      c.reportAt [.member "lines", .item 1, .member "count"] =
        some (.message "must be an integer") := by
  intro line order defs i v v'
  let q : Place := [.member "lines", .item 1]
  have hbelow : Below defs i q line := by
    refine .layer (a := order) rfl (.member (m := ⟨"lines", .list (.defer "line"), true, none⟩)
      (.head _) (.item 1 (.lookup (i := .referenced line "Line") rfl ?_)))
    exact .layer (a := line) rfl (.here line)
  have hlocal := (checks_parts_alone defs).2.2 i q line hbelow v v' _ _ _ _ rfl rfl trivial trivial
    rfl rfl (.member "count") rfl
  exact ⟨_, _, rfl, rfl, hlocal, rfl⟩

end Input

end JsonShape
