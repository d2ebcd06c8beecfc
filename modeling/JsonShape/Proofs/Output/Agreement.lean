import JsonShape.Output.Call
import JsonShape.Proofs.Induction
import JsonShape.Proofs.Members

/-!
# The checked output is the unchecked one

Writing a value with checks answers a report or what is written. What is written is then what is
written without checks, the order of members included: `call_of_report`.

The two ways of writing go through a tree side by side, so this is an induction on the tree, given
the statement for deferred definitions. Records are compared declaration by declaration: an optional
member that is null is left out on both sides, and a required one that is null fails the check.
-/

namespace JsonShape

namespace Output

/-- Meanings of deferred definitions, with checks and without. -/
abbrev Reporter := (name : String) → (base : Bool) → (view : Option String) → Json → Option Checked

abbrev Caller := (name : String) → (base : Bool) → (view : Option String) → Json → Option Json

variable {checked : Reporter} {unchecked : Caller}

/-- What an unchecked result `c` has to be for a checked one `r`: where `r` has a value, `c` is this
value. -/
def Agrees (r : Option Checked) (c : Option Json) : Prop := ∀ w, r = some (.ok w) → c = some w

/-- What the unchecked result for a member has to be for the checked one. -/
def MemberAgrees (m : Member (Option (Except Report (Option Json))))
    (n : Member (Option (Option Json))) : Prop :=
  m.key = n.key ∧ ∀ w, m.value = some (.ok w) → n.value = some w

theorem Agrees.check (accepted : Bool) (message : String) (v : Json) :
    Agrees (some (Checked.check accepted message v)) (some v) := by
  intro w h
  obtain ⟨-, rfl⟩ := Checked.check_eq_ok.1 (Option.some.inj h)
  rfl

theorem Agrees.ite {p : Prop} [Decidable p] {r r' : Option Checked} {c c' : Option Json}
    (h : Agrees r c) (h' : Agrees r' c') :
    Agrees (if p then r else r') (if p then c else c') := by
  split
  · exact h
  · exact h'

/-! ## Records -/

theorem callProperties_cons (p : Property Output) (rest : List (Property Output)) (v : Json) :
    callProperties unchecked (p :: rest) v =
      ⟨p.key, if (p.read v).isNull && !p.required then some none
        else (callWith unchecked p.value none (p.read v)).map some, p.required, p.description⟩ ::
        callProperties unchecked rest v := by
  obtain ⟨key, extract, value, required, description⟩ := p
  cases extract <;> rfl

theorem reportProperties_cons (p : Property Output) (rest : List (Property Output)) (v : Json) :
    reportProperties checked (p :: rest) v =
      ⟨p.key, if (p.read v).isNull then some (Checked.absent p.required)
        else (reportWith checked p.value none (p.read v)).map (Except.map some), p.required,
        p.description⟩ :: reportProperties checked rest v := by
  obtain ⟨key, extract, value, required, description⟩ := p
  cases extract <;> rfl

theorem forall₂_properties {properties : List (Property Output)}
    (ih : ∀ p ∈ properties, ∀ view v,
      Agrees (reportWith checked p.value view v) (callWith unchecked p.value view v)) (v : Json) :
    List.Forall₂ MemberAgrees (reportProperties checked properties v)
      (callProperties unchecked properties v) := by
  induction properties with
  | nil => exact .nil
  | cons p rest ihs =>
    rw [reportProperties_cons, callProperties_cons]
    refine .cons ⟨rfl, fun w h => ?_⟩ (ihs fun p hp => ih p (.tail _ hp))
    by_cases hnull : (p.read v).isNull
    · -- an optional member that is null is absent on both sides
      cases hrequired : p.required
      · simpa [hnull, hrequired, Checked.absent] using h
      · simp [hnull, hrequired, Checked.absent] at h
    · simp only [hnull, Bool.false_eq_true, if_false, Bool.false_and] at h ⊢
      obtain ⟨r, hr, hw⟩ := Option.map_eq_some_iff.1 h
      cases r with
      | error e => simp [Except.map] at hw
      | ok w' =>
        obtain rfl : some w' = w := by simpa [Except.map] using hw
        rw [ih _ (.head _) none _ w' hr]
        rfl

/-- The results for the members in force, and what is written from them. -/
theorem exists_of_forall₂ {ms : List (Member (Option (Except Report (Option Json))))}
    {ns : List (Member (Option (Option Json)))} (h : List.Forall₂ MemberAgrees ms ns)
    {rs : List (String × Except Report (Option Json))}
    (hrs : (ms.mapM fun m => m.value.map fun r => (m.key, r)) = some rs)
    (hok : ∀ r ∈ rs, ∃ v, r.2 = .ok v) :
    ∃ ws, (ns.mapM fun n => n.value.map fun w => (n.key, w)) = some ws ∧
      Checked.acceptedMembers rs = ws.filterMap fun e => e.2.map fun w => (e.1, w) := by
  induction h generalizing rs with
  | nil =>
    obtain rfl : rs = [] := by simpa using hrs.symm
    exact ⟨[], by simp, rfl⟩
  | @cons m n ms ns hmn _ ih =>
    obtain ⟨_, rest, hresult, hrest, rfl⟩ := mapM_cons_eq_some.1 hrs
    obtain ⟨r, hr, rfl⟩ := Option.map_eq_some_iff.1 hresult
    obtain ⟨w, rfl⟩ : ∃ w, r = .ok w := hok (m.key, r) (.head _)
    obtain ⟨ws, hws, hmembers⟩ := ih hrest fun r hr => hok r (.tail _ hr)
    refine ⟨(n.key, w) :: ws, by simp [hmn.2 w hr, hws], ?_⟩
    rw [← hmn.1]
    cases w <;> simp [Checked.acceptedMembers, hmembers]

theorem Agrees.object {properties : List (Property Output)}
    (ih : ∀ p ∈ properties, ∀ view v,
      Agrees (reportWith checked p.value view v) (callWith unchecked p.value view v))
    (view : Option String) (v : Json) :
    Agrees (reportWith checked (.object properties) view v)
      (callWith unchecked (.object properties) view v) := by
  intro w h
  simp only [reportWith, Option.bind_eq_bind, Option.bind_eq_some_iff, Option.some.injEq] at h
  obtain ⟨rs, hrs, hw⟩ := h
  obtain ⟨hok, rfl⟩ := Checked.ofMembers_eq_ok.1 hw
  have hdistinct := Member.distinct_forall₂ (fun _ _ h => h.1) (forall₂_properties ih v)
  obtain ⟨ws, hws, hmembers⟩ := exists_of_forall₂ hdistinct hrs hok
  simp only [callWith, hws, hmembers, Option.bind_eq_bind, Option.bind_some]

/-! ## Arrays, inheritance and views -/

theorem mapM_of_agrees {r : Json → Option Checked} {c : Json → Option Json}
    (ih : ∀ v, Agrees (r v) (c v)) {vs : List Json} {rs : List Checked} (hrs : vs.mapM r = some rs)
    (hok : ∀ r ∈ rs, ∃ v, r = .ok v) : vs.mapM c = some (Checked.accepted rs) := by
  induction vs generalizing rs with
  | nil =>
    obtain rfl : rs = [] := by simpa using hrs.symm
    simp [Checked.accepted]
  | cons v vs ihs =>
    obtain ⟨_, rest, hr, hrest, rfl⟩ := mapM_cons_eq_some.1 hrs
    obtain ⟨w, rfl⟩ := hok _ (.head _)
    simp [ih v w hr, ihs hrest fun r hr => hok r (.tail _ hr), Checked.accepted]

theorem Agrees.merge {p c : Option Checked} {p' c' : Option Json} (hp : Agrees p p')
    (hc : Agrees c c') :
    Agrees (do let a ← p; let b ← c; some (Checked.merge a b))
      (do let a ← p'; let b ← c'; some (a.merge b)) := by
  intro w h
  simp only [Option.bind_eq_bind, Option.bind_eq_some_iff, Option.some.injEq] at h
  obtain ⟨_, ha, _, hb, hab⟩ := h
  obtain ⟨a, b, rfl, rfl, rfl⟩ := Checked.merge_eq_ok.1 hab
  simp [hp a ha, hc b hb]

/-- The first view of a name is the same on both sides. -/
theorem reportView_cases {views : List (String × Output)}
    (ih : ∀ e ∈ views, ∀ view v,
      Agrees (reportWith checked e.2 view v) (callWith unchecked e.2 view v))
    (name : String) (view : Option String) (v : Json) :
    (reportView checked views name view v = none ∧ callView unchecked views name view v = none) ∨
      ∃ r c, reportView checked views name view v = some r ∧
        callView unchecked views name view v = some c ∧ Agrees r c := by
  induction views with
  | nil => exact Or.inl ⟨rfl, rfl⟩
  | cons e rest ihs =>
    obtain ⟨n, o⟩ := e
    rw [reportView, callView]
    split
    · exact Or.inr ⟨_, _, rfl, rfl, ih _ (.head _) view v⟩
    · exact ihs fun e he => ih e (.tail _ he)

/-! ## Trees -/

/-- Trees agree if deferred definitions do: `reportWith` with `checked`, and `callWith` with
`unchecked`. -/
theorem agrees_with (hdeferred : ∀ name base view v,
      Agrees (checked name base view v) (unchecked name base view v))
    (o : Output) (view : Option String) (v : Json) :
    Agrees (reportWith checked o view v) (callWith unchecked o view v) := by
  induction o generalizing view v with
  | text _ | number | integer | boolean =>
    rw [reportWith, callWith]
    exact Agrees.check _ _ v
  | null =>
    cases v with
    | null => exact Agrees.check true _ _
    | _ => exact fun w h => by simp [reportWith, Checked.check, Json.isNull] at h
  | object properties ih => exact Agrees.object ih view v
  | merge parent child ihp ihc =>
    rw [reportWith, callWith]
    exact (ihp view v).merge (ihc view v)
  | list item ih =>
    cases v with
    | array xs =>
      intro w h
      rw [reportWith, Option.map_eq_some_iff] at h
      obtain ⟨rs, hrs, hw⟩ := h
      obtain ⟨hok, rfl⟩ := Checked.ofItems_eq_ok.1 hw
      rw [callWith, mapM_of_agrees (ih view) hrs hok]
      rfl
    | _ => exact fun w h => by simp [reportWith] at h
  | optional inner ih =>
    cases v with
    | null => exact fun w h => by simpa [reportWith, callWith] using h
    | _ =>
      rw [reportWith, callWith]
      · exact ih view _
      all_goals simp
  | described _ _ ih | referenced _ _ ih =>
    rw [reportWith, callWith]
    exact ih view v
  | viaMap inner f ih =>
    rw [reportWith, callWith]
    exact ih view (f v)
  | viewed earlier base later ihe ihb ihl =>
    rw [reportWith, callWith]
    refine Agrees.ite (ihb view v) ?_
    rcases reportView_cases ihe (view.getD baseView) view v with ⟨hr, hc⟩ | ⟨r, c, hr, hc, h⟩
    · simp only [hr, hc]
      rcases reportView_cases ihl (view.getD baseView) view v with ⟨hr, hc⟩ | ⟨r, c, hr, hc, h⟩
      · simpa only [hr, hc] using ihb view v
      · simpa only [hr, hc] using h
    · simpa only [hr, hc] using h
  | cond test holds otherwise ihh iho =>
    rw [reportWith, callWith]
    exact Agrees.ite (ihh view v) (iho view v)
  | chain base views ihb ihv =>
    cases view with
    | none =>
      rw [reportWith, callWith]
      exact ihb none v
    | some name =>
      rw [reportWith, callWith]
      rcases reportView_cases ihv name (some name) v with ⟨hr, hc⟩ | ⟨r, c, hr, hc, h⟩
      · simpa only [hr, hc] using ihb (some name) v
      · simpa only [hr, hc] using h
  | defer name base =>
    rw [reportWith, callWith]
    exact hdeferred name base view v

theorem agrees_at (defs : Dict Output) (limit : Nat) (o : Output) (view : Option String)
    (v : Json) : Agrees (reportAt defs limit o view v) (callAt defs limit o view v) := by
  induction limit generalizing o view v with
  | zero =>
    rw [reportAt, callAt]
    exact agrees_with (fun _ _ _ _ w h => by simp at h) o view v
  | succ limit ih =>
    rw [reportAt, callAt]
    refine agrees_with (fun name base view v => ?_) o view v
    cases resolve? defs name base with
    | none => exact fun w h => by simp at h
    | some o => exact ih o view v

/-- **What is written with checks is what is written without**, however often definitions are
looked up inside one another; `report` and `call` are the case of `deepest`. -/
theorem call_of_report (defs : Dict Output) (limit : Nat) (o : Output) (view : Option String)
    (v w : Json) (h : reportAt defs limit o view v = some (.ok w)) :
    callAt defs limit o view v = some w :=
  agrees_at defs limit o view v w h

/-- A list of people, each with an optional name and a deferred list of friends. -/
theorem call_of_report_people :
    let person : Output := .object [
      ⟨"name", some (·.getOrNull "name"), .text none, false, none⟩,
      ⟨"friends", some (·.getOrNull "friends"), .defer "People" true, true, none⟩]
    let people : Output := .viewed [("count", .integer)] (.list person) []
    let bob : Json := .object [("friends", .array []), ("secret", .bool true)]
    let written : Json := .array [.object [("friends", .array [])]]
    reportAt [("People", people)] 2 people (some "other") (.array [bob]) = some (.ok written) ∧
      callAt [("People", people)] 2 people (some "other") (.array [bob]) = some written :=
  ⟨rfl, call_of_report _ _ _ _ _ _ rfl⟩

end Output

end JsonShape
