import JsonShape.Proofs.Output.Offered

/-!
# The default view

An output that is asked for no view writes its default view, and that view can also be selected.
Both are the same, but for inheritance: the views of a merge are those of its child, so that a
selected view leaves the parent out, where the merge itself writes the members of both.

* `writes_list`, `writes_defer` and the like: what shapes write, if definitions are looked up often
  enough.
* `AlikeByDefault`: outputs that write the same where no view is requested.
* `Pruned`: the output that is left when the parents on the way to the views are left out.
* `view_base_alike`: the selected default view is the output without these parents.
* `base_drops_inherited`: a merge whose default view leaves members out.
-/

namespace JsonShape

/-- The output that a field is made for. -/
def FieldSource.output : FieldSource → Output
  | .ready o => o
  | .lazy name => .defer name false

namespace Output

open Input (Le)

variable {defs : Dict Output} {o q p s x : Output} {requested : Option String} {limit : Nat}

/-! ## Shapes without a limit -/

theorem writes_congr {requested' : Option String} {v v' w : Json}
    (h : ∀ unchecked, callWith unchecked o requested v = callWith unchecked q requested' v') :
    Writes defs o requested v w ↔ Writes defs q requested' v' w :=
  exists_congr fun limit => by rw [callAt_eq, callAt_eq, h]

theorem reports_congr {requested' : Option String} {v v' : Json} {r : Checked}
    (h : ∀ checked, reportWith checked o requested v = reportWith checked q requested' v') :
    Reports defs o requested v r ↔ Reports defs q requested' v' r :=
  exists_congr fun limit => by rw [reportAt_eq, reportAt_eq, h]

theorem writes_optional {v w : Json} (hv : v ≠ .null) :
    Writes defs (.optional x) requested v w ↔ Writes defs x requested v w := by
  cases v with
  | null => exact absurd rfl hv
  | _ => exact writes_congr fun _ => rfl

theorem reports_optional {v : Json} {r : Checked} (hv : v ≠ .null) :
    Reports defs (.optional x) requested v r ↔ Reports defs x requested v r := by
  cases v with
  | null => exact absurd rfl hv
  | _ => exact reports_congr fun _ => rfl

/-- A list of answers is found within some limit if each of them is. -/
theorem exists_mapM_iff {α β : Type} {answer : Nat → α → Option β} {xs : List α} {ys : List β}
    (hmono : ∀ n m, n ≤ m → ∀ x, Le (answer n x) (answer m x)) :
    (∃ n, xs.mapM (answer n) = some ys) ↔
      List.Forall₂ (fun x y => ∃ n, answer n x = some y) xs ys := by
  constructor
  · rintro ⟨n, h⟩
    exact (mapM_eq_some_iff.1 h).imp fun _ _ hy => ⟨n, hy⟩
  · intro h
    induction h with
    | nil => exact ⟨0, rfl⟩
    | cons hy _ ih =>
      obtain ⟨n, hn⟩ := hy
      obtain ⟨m, hm⟩ := ih
      refine ⟨max n m, mapM_cons_eq_some.2 ⟨_, _, ?_, ?_, rfl⟩⟩
      · exact hmono n _ (Nat.le_max_left n m) _ _ hn
      · exact Le.mapM (fun x _ => hmono m _ (Nat.le_max_right n m) x) _ hm

theorem writes_list {xs : List Json} {w : Json} :
    Writes defs (.list x) requested (.array xs) w ↔
      ∃ ws, List.Forall₂ (Writes defs x requested) xs ws ∧ .array ws = w := by
  have hat : ∀ limit, callAt defs limit (.list x) requested (.array xs) =
      (xs.mapM (callAt defs limit x requested)).map .array := fun limit => by cases limit <;> rfl
  simp only [Writes, hat, Option.map_eq_some_iff]
  rw [exists_comm]
  refine exists_congr fun ws => ?_
  rw [exists_and_right, exists_mapM_iff fun _ _ hle v => callAt_le hle x requested v]
  rfl

theorem reports_list {xs : List Json} {r : Checked} :
    Reports defs (.list x) requested (.array xs) r ↔
      ∃ rs, List.Forall₂ (Reports defs x requested) xs rs ∧ Checked.ofItems rs = r := by
  have hat : ∀ limit, reportAt defs limit (.list x) requested (.array xs) =
      (xs.mapM (reportAt defs limit x requested)).map Checked.ofItems := fun limit => by
    cases limit <;> rfl
  simp only [Reports, hat, Option.map_eq_some_iff]
  rw [exists_comm]
  refine exists_congr fun rs => ?_
  rw [exists_and_right, exists_mapM_iff fun _ _ hle v => reportAt_le hle x requested v]
  rfl

/-! ## Definitions without a limit -/

/-- What is found after one lookup more is found in what that lookup finds. -/
theorem exists_limit_iff {α β : Type} {found : Option α} {f : Nat → Option β}
    {g : Nat → α → Option β} (hzero : f 0 = none) (hsucc : ∀ n, f (n + 1) = found.bind (g n))
    {y : β} : (∃ n, f n = some y) ↔ ∃ x, found = some x ∧ ∃ n, g n x = some y := by
  constructor
  · rintro ⟨_ | n, h⟩
    · cases hzero.symm.trans h
    · obtain ⟨x, hx, h⟩ := Option.bind_eq_some_iff.1 ((hsucc n).symm.trans h)
      exact ⟨x, hx, n, h⟩
  · rintro ⟨x, hx, n, h⟩
    exact ⟨n + 1, (hsucc n).trans (Option.bind_eq_some_iff.2 ⟨x, hx, h⟩)⟩

/-- A definition is written like what it is resolved to. -/
theorem writes_defer {name : String} {base : Bool} {v w : Json} :
    Writes defs (.defer name base) requested v w ↔
      ∃ x, resolve? defs name base = some x ∧ Writes defs x requested v w :=
  exists_limit_iff rfl fun _ => rfl

theorem reports_defer {name : String} {base : Bool} {v : Json} {r : Checked} :
    Reports defs (.defer name base) requested v r ↔
      ∃ x, resolve? defs name base = some x ∧ Reports defs x requested v r :=
  exists_limit_iff rfl fun _ => rfl

/-! ## Without a requested view -/

/-- Where no view is requested, `o` and `q` write and report the same. -/
structure AlikeByDefault (defs : Dict Output) (o q : Output) : Prop where
  writes : ∀ v w, Writes defs o none v w ↔ Writes defs q none v w
  reports : ∀ v r, Reports defs o none v r ↔ Reports defs q none v r

namespace AlikeByDefault

theorem refl (defs : Dict Output) (o : Output) : AlikeByDefault defs o o :=
  ⟨fun _ _ => Iff.rfl, fun _ _ => Iff.rfl⟩

theorem symm (h : AlikeByDefault defs o q) : AlikeByDefault defs q o :=
  ⟨fun v w => (h.writes v w).symm, fun v r => (h.reports v r).symm⟩

theorem trans (h : AlikeByDefault defs o q) (h' : AlikeByDefault defs q p) :
    AlikeByDefault defs o p :=
  ⟨fun v w => (h.writes v w).trans (h'.writes v w),
    fun v r => (h.reports v r).trans (h'.reports v r)⟩

theorem of_alike (h : Alike o none q none) : AlikeByDefault defs o q :=
  ⟨fun v _ => writes_congr fun unchecked => h.call unchecked v,
    fun v _ => reports_congr fun checked => h.report checked v⟩

theorem list (h : AlikeByDefault defs o q) : AlikeByDefault defs (.list o) (.list q) := by
  have hwrites : Writes defs o none = Writes defs q none :=
    funext fun v => funext fun w => propext (h.writes v w)
  have hreports : Reports defs o none = Reports defs q none :=
    funext fun v => funext fun r => propext (h.reports v r)
  constructor
  · intro v w
    cases v with
    | array xs => rw [writes_list, writes_list, hwrites]
    | _ => exact writes_congr fun _ => rfl
  · intro v r
    cases v with
    | array xs => rw [reports_list, reports_list, hreports]
    | _ => exact reports_congr fun _ => rfl

theorem optional (h : AlikeByDefault defs o q) :
    AlikeByDefault defs (.optional o) (.optional q) := by
  constructor
  · intro v w
    by_cases hv : v = .null
    · subst hv
      exact writes_congr fun _ => rfl
    · rw [writes_optional hv, writes_optional hv, h.writes]
  · intro v r
    by_cases hv : v = .null
    · subst hv
      exact reports_congr fun _ => rfl
    · rw [reports_optional hv, reports_optional hv, h.reports]

theorem viaMap (h : AlikeByDefault defs o q) (f : Json → Json) :
    AlikeByDefault defs (.viaMap o f) (.viaMap q f) := by
  have hwrites : ∀ x v w, Writes defs (.viaMap x f) none v w ↔ Writes defs x none (f v) w :=
    fun _ _ _ => writes_congr fun _ => rfl
  have hreports : ∀ x v r, Reports defs (.viaMap x f) none v r ↔ Reports defs x none (f v) r :=
    fun _ _ _ => reports_congr fun _ => rfl
  constructor
  · intro v w
    rw [hwrites, hwrites, h.writes]
  · intro v r
    rw [hreports, hreports, h.reports]

theorem described (o : Output) (text : String) : AlikeByDefault defs (.described o text) o :=
  of_alike ⟨fun _ _ => rfl, fun _ _ => rfl⟩

theorem referenced (o : Output) (name : String) : AlikeByDefault defs (.referenced o name) o :=
  of_alike ⟨fun _ _ => rfl, fun _ _ => rfl⟩

/-- A definition is written like what it is resolved to. -/
theorem defer {name : String} {base : Bool} (h : resolve? defs name base = some x) :
    AlikeByDefault defs (.defer name base) x := by
  constructor
  · intro v w
    simp only [writes_defer, h, Option.some.injEq, exists_eq_left']
  · intro v r
    simp only [reports_defer, h, Option.some.injEq, exists_eq_left']

theorem viewed (earlier : Dict Output) (base : Output) (later : Dict Output) :
    AlikeByDefault defs (.viewed earlier base later) base :=
  of_alike (alike_viewed earlier base later none)

theorem chain (base : Output) (views : Dict Output) :
    AlikeByDefault defs (.chain base views) base :=
  of_alike (alike_chain base views none)

end AlikeByDefault

/-! ## Parents on the way to the views -/

/-- `Pruned defs o p`: `p` is `o` without the parents on the way to its views. -/
inductive Pruned (defs : Dict Output) : Output → Output → Prop
  | plain {x : Output} (h : viewOf? defs x baseView = none) : Pruned defs x x
  | viewed (earlier : Dict Output) (base : Output) (later : Dict Output) :
      Pruned defs (.viewed earlier base later) (.viewed earlier base later)
  | chain (base : Output) (views : Dict Output) :
      Pruned defs (.chain base views) (.chain base views)
  | merge (parent : Output) {child p : Output} (hchild : (viewOf? defs child baseView).isSome)
      (h : Pruned defs child p) : Pruned defs (.merge parent child) p
  | list {x p : Output} (h : Pruned defs x p) : Pruned defs (.list x) (.list p)
  | optional {x p : Output} (h : Pruned defs x p) : Pruned defs (.optional x) (.optional p)
  | viaMap {x p : Output} (h : Pruned defs x p) (f : Json → Json) :
      Pruned defs (.viaMap x f) (.viaMap p f)
  | described {x p : Output} (h : Pruned defs x p) (text : String) :
      Pruned defs (.described x text) (.described p text)
  | referenced {x p : Output} (h : Pruned defs x p) (component : String) :
      Pruned defs (.referenced x component) (.referenced p component)
  | defer {x p : Output} {name : String} {base : Bool} (hx : resolve? defs name base = some x)
      (h : Pruned defs x p) : Pruned defs (.defer name base) p

/-- Where there is no parent to leave out (`Overlaid`), nothing changes. -/
theorem Pruned.alike (h : Pruned defs o p) (ho : ¬Overlaid defs o) : AlikeByDefault defs p o := by
  induction h with
  | plain | viewed | chain => exact .refl defs _
  | merge parent hchild => exact absurd (.here (.merge parent hchild)) ho
  | list _ ih => exact (ih fun h => ho h.list).list
  | optional _ ih => exact (ih fun h => ho h.optional).optional
  | viaMap _ f ih => exact (ih fun h => ho (h.viaMap f)).viaMap f
  | described _ text ih =>
    have hinner := ih fun h => ho (h.described text)
    exact ((AlikeByDefault.described _ text).trans hinner).trans (.symm (.described _ text))
  | referenced _ component ih =>
    have hinner := ih fun h => ho (h.referenced component)
    exact ((AlikeByDefault.referenced _ component).trans hinner).trans
      (.symm (.referenced _ component))
  | defer hx _ ih => exact (ih fun h => ho (h.defer hx)).trans (AlikeByDefault.defer hx).symm

/-! ## The default view -/

theorem exists_pruned_with {selector : Selector}
    (hle : ∀ o, Le (viewWith selector o baseView) (viewOf? defs o baseView))
    (hselector : ∀ n base s, selector n base baseView = some s →
      ∃ p, Pruned defs (.defer n base) p ∧ AlikeByDefault defs s p)
    (h : viewWith selector o baseView = some s) :
    ∃ p, Pruned defs o p ∧ AlikeByDefault defs s p := by
  induction o generalizing s with
  | text _ | number | integer | boolean | null | object _ _ | cond _ _ _ _ _ => cases h
  | merge parent child _ ih =>
    obtain ⟨p, hp, hs⟩ := ih h
    exact ⟨p, hp.merge parent (by rw [hle child s h]; rfl), hs⟩
  | list a ih =>
    obtain ⟨q, hq, rfl⟩ := Option.map_eq_some_iff.1 h
    obtain ⟨p, hp, hs⟩ := ih hq
    exact ⟨_, hp.list, hs.list⟩
  | optional a ih =>
    obtain ⟨q, hq, rfl⟩ := Option.map_eq_some_iff.1 h
    obtain ⟨p, hp, hs⟩ := ih hq
    exact ⟨_, hp.optional, hs.optional⟩
  | viaMap a f ih =>
    obtain ⟨q, hq, rfl⟩ := Option.map_eq_some_iff.1 h
    obtain ⟨p, hp, hs⟩ := ih hq
    exact ⟨_, hp.viaMap f, hs.viaMap f⟩
  | described a text ih =>
    obtain ⟨p, hp, hs⟩ := ih h
    exact ⟨_, hp.described text, hs.trans (AlikeByDefault.described p text).symm⟩
  | referenced a component ih =>
    obtain ⟨p, hp, hs⟩ := ih h
    exact ⟨_, hp.referenced component, hs.trans (AlikeByDefault.referenced p component).symm⟩
  | viewed earlier base later =>
    obtain rfl : base = s := Option.some.inj h
    exact ⟨_, .viewed earlier base later, (AlikeByDefault.viewed earlier base later).symm⟩
  | chain base views =>
    obtain rfl : base = s := Option.some.inj h
    exact ⟨_, .chain base views, (AlikeByDefault.chain base views).symm⟩
  | defer n base => exact hselector n base s h

/-- **A default view that is found is the output without the parents on the way to it**, whatever
limit finds it. -/
theorem exists_pruned (hlimit : limit ≤ lookupLimit defs)
    (h : viewAt defs limit o baseView = some s) :
    ∃ p, Pruned defs o p ∧ AlikeByDefault defs s p := by
  have hle : ∀ limit ≤ lookupLimit defs, ∀ o,
      Le (viewWith (viewLookup defs limit) o baseView) (viewOf? defs o baseView) := by
    intro limit hlimit o
    rw [← viewAt_eq]
    exact viewAt_le hlimit o baseView
  induction limit generalizing o s with
  | zero =>
    rw [viewAt_eq] at h
    exact exists_pruned_with (hle 0 hlimit) (fun _ _ _ hnone => nomatch hnone) h
  | succ limit ih =>
    rw [viewAt_eq] at h
    refine exists_pruned_with (hle _ hlimit) (fun n base s h => ?_) h
    have hlimit' : limit ≤ lookupLimit defs := Nat.le_of_succ_le hlimit
    rw [viewLookup_eq_bind] at h
    obtain ⟨d, hd, h⟩ := Option.bind_eq_some_iff.1 h
    obtain ⟨p, hp, hs⟩ := ih hlimit' h
    refine ⟨p, hp.defer ?_, hs⟩
    rw [resolve?_eq, hd, Option.map_some, resolveAt_eq_of_isSome hlimit' (by rw [h]; rfl)]

theorem exists_pruned_baseOf (defs : Dict Output) (o : Output) :
    ∃ p, Pruned defs o p ∧ AlikeByDefault defs (baseOf defs o) p := by
  rw [baseOf]
  cases h : viewOf? defs o baseView with
  | none => exact ⟨o, .plain h, .refl defs o⟩
  | some s => exact exists_pruned le_rfl h

theorem view_base (defs : Dict Output) (o : Output) :
    view defs o baseView = .ok (baseOf defs o) := by
  rw [view, baseOf]
  cases viewOf? defs o baseView with
  | some s => rfl
  | none => exact if_pos rfl

/-- What the field `f` writes for its value is its output without the parents on the way to the
views. -/
theorem exists_pruned_property (defs : Dict Output) (f : Field) :
    ∃ p, Pruned defs f.source.output p ∧ AlikeByDefault defs (f.property defs).value p := by
  cases hsource : f.source with
  | ready o =>
    have hvalue : (f.property defs).value = baseOf defs o := by rw [Field.property, hsource]
    rw [hvalue]
    exact exists_pruned_baseOf defs o
  | lazy name =>
    have hvalue : (f.property defs).value = .defer name true := by rw [Field.property, hsource]
    rw [hvalue, FieldSource.output]
    cases hd : defs.get? name with
    | none =>
      have hresolve : ∀ base, resolve? defs name base = none := fun base => by
        rw [resolve?, hd, Option.map_none]
      refine ⟨_, .plain (by rw [viewOf?_defer, hresolve, Option.bind_none]), ?_⟩
      -- a definition that is not there writes nothing, whole or by its default view
      constructor <;> intros <;> simp [writes_defer, reports_defer, hresolve]
    | some d =>
      obtain ⟨p, hp, hbase⟩ := exists_pruned_baseOf defs d
      have hresolve : resolve? defs name true = some (baseOf defs d) := by
        rw [resolve?, hd, Option.map_some, if_pos rfl]
      exact ⟨p, hp.defer (resolve?_whole hd), (AlikeByDefault.defer hresolve).trans hbase⟩

/-- **The default view.** `view defs o baseView` always has a result `s`. What is selected, like
what the field `f` writes for its value, is the output without the parents on the way to its views
(`Pruned`); so it is written like the output itself wherever there are none (`Overlaid`). There are
none in records and blueprints, however they are wrapped, and of a record its default view is
selected. -/
theorem view_base_alike (defs : Dict Output) :
    (∀ o, ∃ s p, view defs o baseView = .ok s ∧ Pruned defs o p ∧ AlikeByDefault defs s p ∧
      (¬Overlaid defs o → AlikeByDefault defs s o)) ∧
    (∀ f : Field, ∃ p, Pruned defs f.source.output p ∧
      AlikeByDefault defs (f.property defs).value p ∧
      (¬Overlaid defs f.source.output →
        AlikeByDefault defs (f.property defs).value f.source.output)) ∧
    (∀ core deferred x, Selectable defs core → Wrapped defs core deferred x →
      ¬Overlaid defs x) ∧
    ∀ r : OutputStruct, r.Built defs →
      r.view defs baseView = .ok r.base ∧ AlikeByDefault defs r.base r.output := by
  refine ⟨fun o => ?_, fun f => ?_, fun _ _ _ hcore h hx => ?_, fun r hr => ⟨rfl, ?_⟩⟩
  · obtain ⟨p, hp, hbase⟩ := exists_pruned_baseOf defs o
    exact ⟨_, p, view_base defs o, hp, hbase, fun ho => hbase.trans (hp.alike ho)⟩
  · obtain ⟨p, hp, hvalue⟩ := exists_pruned_property defs f
    exact ⟨p, hp, hvalue, fun hf => hvalue.trans (hp.alike hf)⟩
  · exact h.not_met hcore (hx.mono fun _ => Or.inr)
  · rcases hr.output_cases with houtput | ⟨shapes, houtput, -⟩
    · rw [houtput]
      exact .refl defs r.base
    · rw [houtput]
      exact (AlikeByDefault.viewed [] r.base shapes).symm

/-- People, who are listed and may be missing, are written like their default view, and a field for
them is too. -/
theorem view_base_alike_people :
    let id : Field := ⟨"id", .ready .integer, none, none, true⟩
    let friend : Field := ⟨"friend", .lazy "Person", none, none, false⟩
    let base : Output :=
      .referenced (.object [⟨"id", some (·.getOrNull "id"), .integer, true, none⟩]) "Person"
    let detail : Output := .referenced (.merge base (.object
      [⟨"friend", some (·.getOrNull "friend"), .defer "Person" true, false, none⟩])) "Person.detail"
    let person : Output := .viewed [] base [("detail", detail)]
    let defs : Dict Output := [("Person", person)]
    let people : Output := .list (.optional (.defer "Person" false))
    (∃ r, OutputStruct.build defs "Person" none [id] [("detail", [friend])] = .ok r ∧
        r.output = person ∧ AlikeByDefault defs r.base person) ∧
      (∃ s, view defs people baseView = .ok s ∧ AlikeByDefault defs s people) ∧
      AlikeByDefault defs (Field.property defs ⟨"members", .ready people, none, none, true⟩).value
        people := by
  intro id friend base detail person defs people
  have hbuild : OutputStruct.build defs "Person" none [id] [("detail", [friend])] = .ok _ := rfl
  have hbuilt := @OutputStruct.Built.mk defs "Person" none _ _ _ nofun hbuild
  have hdefer : Wrapped defs person ["Person"] (.defer "Person" false) := .defer rfl .core
  obtain ⟨hview, hfield, hplain, hrecord⟩ := view_base_alike defs
  have hpeople := hplain _ _ _ (.record hbuilt) hdefer.optional.list
  obtain ⟨s, -, hs, -, -, halike⟩ := hview people
  obtain ⟨-, -, -, hvalue⟩ := hfield ⟨"members", .ready people, none, none, true⟩
  exact ⟨⟨_, hbuild, rfl, (hrecord _ hbuilt).2⟩, ⟨s, hs, halike hpeople⟩, hvalue hpeople⟩

/-- A name with a number before it, where the name has views: the default view of both, and a field
for both, write the name only. -/
theorem base_drops_inherited :
    let numbered : Output := .object [⟨"id", some (·.getOrNull "id"), .integer, true, none⟩]
    let name : Output := .object [⟨"name", some (·.getOrNull "name"), .text none, true, none⟩]
    let o : Output := .merge numbered (.viewed [] name [])
    let field : Field := ⟨"owner", .ready o, none, none, true⟩
    let v : Json := .object [("id", .number (.int 1)), ("name", .string "a")]
    let w : Json := .object [("name", .string "a")]
    call [] o none v = some v ∧
      (∃ s, view [] o baseView = .ok s ∧ call [] s none v = some w) ∧
      call [] (field.property []).value none v = some w :=
  ⟨rfl, ⟨_, rfl, rfl⟩, rfl⟩

end Output

end JsonShape
