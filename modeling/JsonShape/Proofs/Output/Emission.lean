import JsonShape.Proofs.Json.Nulls
import JsonShape.Proofs.Output.Limit
import JsonShape.Proofs.Shape
import JsonShape.Regex.Pattern

/-!
# Writing what was read

A shape whose members are read from their own keys can write what it has read. The two sides differ
in one thing: a member that is present and null is read like any other, and it is written as if it
were absent. So what was read is written without its null members, if they are optional
(`Shape.writes_what_was_read`).

* `Output.Direct` and `Shape.Direct`: nothing is made of a value before it is written.
* `Input.Keeps`: an input accepts a value as it is.
* `Direct.keeps_of_call`: what is read is kept when it is read again.
* `Direct.reportWith_eq_ok_iff`: what is written of a value that the input keeps, by induction on
  the output.
-/

namespace JsonShape

/-- The property is read from the member of its own key. -/
def Property.ReadsKey {α : Type} (p : Property α) : Prop := ∀ v, p.read v = v.getOrNull p.key

/-! ## Values that are kept -/

namespace Input

variable [Regex.Engine] {deferred : String → Json → Outcome} {w : Json}

/-- `i` accepts `w` as it is. -/
def Keeps (deferred : String → Json → Outcome) (i : Input) (w : Json) : Prop :=
  callWith deferred i w = some (.ok w)

theorem keeps_list {item : Input} {ys : List Json} :
    Keeps deferred (.list item) (.array ys) ↔ ∀ y ∈ ys, Keeps deferred item y := by
  rw [Keeps, callWith_list_eq_ok]
  simp only [Json.array.injEq, exists_and_left, exists_eq_left', List.forall₂_same]
  rfl

theorem keeps_optional {inner : Input} :
    Keeps deferred (.optional inner) w ↔ w = .null ∨ w ≠ .null ∧ Keeps deferred inner w := by
  rw [Keeps, callWith_optional_eq_ok, and_self_iff]
  rfl

/-- The member `m` is in `ws`, if it is required, and kept, if it is there. -/
def KeepsMember (deferred : String → Json → Outcome) (ws : Dict Json) (m : Member Input) : Prop :=
  (m.required → ws.contains m.key) ∧ ∀ x, ws.get? m.key = some x → Keeps deferred m.value x

/-- An object is kept if it has declared members only, in the order of their declarations, and each
of them is kept. -/
theorem keeps_object {members : List (Member Input)} {ws : Dict Json} :
    Keeps deferred (.object members) (.object ws) ↔
      ws.names.Sublist (Member.keys (Member.distinct members)) ∧
        ∀ m ∈ Member.distinct members, KeepsMember deferred ws m := by
  rw [Keeps, callWith_object_eq_ok]
  simp only [Json.object.injEq, exists_and_left, exists_eq_left', callMember_eq_ok]
  refine and_congr_right fun _ => forall₂_congr fun m _ => ?_
  unfold KeepsMember Dict.contains
  cases ws.get? m.key with
  | none => simp
  | some x => simp [Keeps]

end Input

namespace Output

variable [Regex.Engine] {checked : Reporter} {deferred first again : String → Json → Outcome}
  {o : Output}
  {properties : List (Property Output)} {p : Property Output} {v w : Json} {view : Option String}

/-! ## Direct outputs -/

mutual

/-- The output is built from basic types, lists, optional shapes and objects whose members are read
from their own keys. -/
def Direct : Output → Prop
  | .text _ | .number | .integer | .boolean | .null => True
  | .object properties => DirectProperties properties
  | .list a | .optional a | .described a _ | .referenced a _ => a.Direct
  | _ => False

/-- The same for properties. -/
def DirectProperties : List (Property Output) → Prop
  | [] => True
  | ⟨key, extract, value, required, description⟩ :: rest =>
    Property.ReadsKey ⟨key, extract, value, required, description⟩ ∧ value.Direct ∧
      DirectProperties rest

end

omit [Regex.Engine] in
theorem directProperties_iff :
    DirectProperties properties ↔ ∀ p ∈ properties, p.ReadsKey ∧ p.value.Direct := by
  induction properties with
  | nil => exact iff_of_true trivial (List.forall_mem_nil _)
  | cons p rest ih =>
    rw [List.forall_mem_cons, ← ih, and_assoc]
    exact Iff.rfl

/-! ## Reading again -/

/-- The mirror of an object keeps an object by its properties in force. -/
theorem keeps_mirror_object {ws : Dict Json} :
    Input.Keeps deferred (mirror (.object properties)) (.object ws) ↔
      ws.names.Sublist ((inForce properties).map Property.key) ∧
        ∀ p ∈ inForce properties, Input.KeepsMember deferred ws (mirrorProperty p) := by
  have hdistinct : Member.distinct (properties.map mirrorProperty) =
      (inForce properties).map mirrorProperty :=
    distinct_declared (fun p => p.value.mirror) properties
  rw [mirror_object, Input.keeps_object, hdistinct, Member.keys, List.map_map, List.forall_mem_map]
  rfl

/-- **What is read is kept when it is read again**, whatever deferred definitions mean then: `first`
and `again` need not agree. -/
theorem Direct.keeps_of_call (h : o.Direct) (hw : Input.callWith first o.mirror v = some (.ok w)) :
    Input.Keeps again o.mirror w := by
  induction o generalizing v w with
  | text _ | number | integer | boolean | null =>
    obtain ⟨-, rfl⟩ := Checked.check_eq_ok.1 (Option.some.inj hw)
    exact hw
  | object properties ih =>
    rw [mirror_object] at hw
    obtain ⟨ms, ws, rfl, rfl, hsub, hmember⟩ := Input.callWith_object_eq_ok.1 hw
    rw [mirror_object]
    refine Input.keeps_object.2 ⟨hsub, fun m hm => ?_⟩
    obtain ⟨p, hp, rfl⟩ := List.mem_map.1 (Member.mem_of_mem_distinct hm)
    rcases Input.callMember_eq_ok.1 (hmember _ hm) with ⟨-, hoptional, hnone⟩ | ⟨x, y, -, hy, hsome⟩
    · simp [Input.KeepsMember, hoptional, hnone]
    · refine ⟨fun _ => by simp [Dict.contains, hsome], fun y' hy' => ?_⟩
      obtain rfl := Option.some.inj (hsome.symm.trans hy')
      exact ih p hp (directProperties_iff.1 h p hp).2 hy
  | list item ih =>
    obtain ⟨xs, ys, rfl, rfl, hys⟩ := Input.callWith_list_eq_ok.1 hw
    refine Input.keeps_list.2 fun y hy => ?_
    obtain ⟨x, -, hx⟩ := exists_of_forall₂_of_mem hys.flip hy
    exact ih h hx
  | optional inner ih =>
    refine Input.keeps_optional.2 ?_
    by_cases hnull : w = .null
    · exact Or.inl hnull
    · rcases Input.callWith_optional_eq_ok.1 hw with ⟨-, hw⟩ | ⟨-, hw⟩
      · exact Or.inl hw
      · exact Or.inr ⟨hnull, ih h hw⟩
  | described _ _ ih | referenced _ _ ih => exact ih h hw
  | merge _ _ | viaMap _ _ | viewed _ _ _ | cond _ _ _ | chain _ _ | defer _ _ => exact h.elim

/-! ## Writing -/

/-- What a property writes of an object: the member that is left without null members, if it may be
left out or is there. -/
theorem reportProperty_eq_ok_iff {ws : Dict Json} {written : Option Json} (hp : p.ReadsKey)
    (hnodup : ws.names.Nodup)
    (ih : ∀ x w, ws.get? p.key = some x → (reportWith checked p.value none x = some (.ok w) ↔
      w = x.withoutNulls ∧ Input.Keeps deferred p.value.mirror x.withoutNulls)) :
    reportProperty checked (.object ws) p = some (.ok written) ↔
      written = Dict.get? (Json.membersWithoutNulls ws) p.key ∧
        Input.KeepsMember deferred (Json.membersWithoutNulls ws) (mirrorProperty p) := by
  have hread : p.read (.object ws) = (ws.get? p.key).getD .null := hp (.object ws)
  have hleft := Json.get?_membersWithoutNulls hnodup p.key
  rw [reportProperty_eq_ok, hread, Input.KeepsMember, Dict.contains, mirrorProperty, hleft]
  cases hx : ws.get? p.key with
  | none => simp [and_comm]
  | some x =>
    by_cases hnull : x = .null
    · simp [hnull, Json.isNull, and_comm]
    · have hnot : x.isNull = false := Bool.eq_false_iff.2 fun h => hnull (Json.isNull_iff.1 h)
      have hwritten : (∃ y, reportWith checked p.value none x = some (.ok y) ∧ written = some y) ↔
          written = some x.withoutNulls ∧ Input.Keeps deferred p.value.mirror x.withoutNulls := by
        simp only [ih x _ hx]
        constructor
        · rintro ⟨y, ⟨rfl, hkeeps⟩, rfl⟩
          exact ⟨rfl, hkeeps⟩
        · rintro ⟨rfl, hkeeps⟩
          exact ⟨_, ⟨rfl, hkeeps⟩, rfl⟩
      simp [hnull, hnot, hwritten]

omit [Regex.Engine] in
/-- A value of a basic type has no members, and it is written after the check that it has passed. -/
theorem check_eq_ok_iff {accepted : Json → Bool} {message : String} {x : Json}
    (hkeeps : some (Checked.check (accepted x) message x) = some (.ok x))
    (haccepted : ∀ x, accepted x → x.withoutNulls = x) :
    some (Checked.check (accepted x) message x) = some (.ok w) ↔ w = x.withoutNulls ∧
      some (Checked.check (accepted x.withoutNulls) message x.withoutNulls) =
        some (.ok x.withoutNulls) := by
  have hx : accepted x := (Checked.check_eq_ok.1 (Option.some.inj hkeeps)).1
  rw [haccepted x hx, hkeeps]
  simp [eq_comm (a := w)]

omit [Regex.Engine] in
/-- Lists are related by a function, where single items are. -/
theorem forall₂_iff_eq_map {α β : Type} {R : α → β → Prop} {f : α → β} {P : α → Prop} {xs : List α}
    {ys : List β} (h : ∀ x ∈ xs, ∀ y, R x y ↔ y = f x ∧ P x) :
    List.Forall₂ R xs ys ↔ ys = xs.map f ∧ ∀ x ∈ xs, P x := by
  induction xs generalizing ys with
  | nil => simp
  | cons x rest ih =>
    obtain ⟨hx, hrest⟩ := List.forall_mem_cons.1 h
    rw [List.forall₂_cons_left_iff, List.map_cons, List.forall_mem_cons]
    constructor
    · rintro ⟨y, ys, hy, hys, rfl⟩
      obtain ⟨rfl, hP⟩ := (hx y).1 hy
      obtain ⟨rfl, hall⟩ := (ih hrest).1 hys
      exact ⟨rfl, hP, hall⟩
    · rintro ⟨rfl, hP, hall⟩
      exact ⟨_, _, (hx _).2 ⟨rfl, hP⟩, (ih hrest).2 ⟨rfl, hall⟩, rfl⟩

/-- What an object writes of an object that its mirror keeps. -/
theorem reportWith_object_eq_ok_iff {ws : Dict Json} (hdirect : ∀ p ∈ properties, p.ReadsKey)
    (hkeeps : Input.Keeps deferred (mirror (.object properties)) (.object ws))
    (ih : ∀ p ∈ properties, ∀ x w, Input.Keeps deferred p.value.mirror x →
      (reportWith checked p.value none x = some (.ok w) ↔
        w = x.withoutNulls ∧ Input.Keeps deferred p.value.mirror x.withoutNulls)) :
    reportWith checked (.object properties) view (.object ws) = some (.ok w) ↔
      w = (Json.object ws).withoutNulls ∧
        Input.Keeps deferred (mirror (.object properties)) (Json.object ws).withoutNulls := by
  obtain ⟨hsub, hmember⟩ := keeps_mirror_object.1 hkeeps
  have hkeys := nodup_keys_inForce properties
  have hleft : (Dict.names (Json.membersWithoutNulls ws)).Sublist
      ((inForce properties).map Property.key) :=
    (Json.names_membersWithoutNulls_sublist ws).trans hsub
  have hwritten : ∀ p ∈ inForce properties, ∀ written,
      reportProperty checked (.object ws) p = some (.ok written) ↔
        written = Dict.get? (Json.membersWithoutNulls ws) p.key ∧
          Input.KeepsMember deferred (Json.membersWithoutNulls ws) (mirrorProperty p) := by
    intro p hp written
    have hmem := mem_of_mem_inForce hp
    refine reportProperty_eq_ok_iff (hdirect p hmem) (hsub.nodup hkeys) fun x w hx => ?_
    exact ih p hmem x w ((hmember p hp).2 x hx)
  rw [reportWith_object_eq_ok, Json.withoutNulls, keeps_mirror_object]
  constructor
  · rintro ⟨zs, rfl, hzs, hall⟩
    have hget : ∀ p ∈ inForce properties,
        zs.get? p.key = Dict.get? (Json.membersWithoutNulls ws) p.key := fun p hp =>
      ((hwritten p hp _).1 (hall p hp)).1
    have hsame : zs = Json.membersWithoutNulls ws :=
      Dict.eq_of_sublist hkeys hzs hleft (List.forall_mem_map.2 hget)
    exact ⟨congrArg Json.object hsame, hleft, fun p hp => ((hwritten p hp _).1 (hall p hp)).2⟩
  · rintro ⟨rfl, -, hall⟩
    exact ⟨_, rfl, hleft, fun p hp => (hwritten p hp _).2 ⟨rfl, hall p hp⟩⟩

/-- **What is written of a value that the input keeps**: `x.withoutNulls`, if the input keeps
that. -/
theorem Direct.reportWith_eq_ok_iff (h : o.Direct) {x : Json}
    (hkeeps : Input.Keeps deferred o.mirror x) :
    reportWith checked o view x = some (.ok w) ↔
      w = x.withoutNulls ∧ Input.Keeps deferred o.mirror x.withoutNulls := by
  induction o generalizing view x w with
  | text _ | number | integer | boolean | null =>
    exact check_eq_ok_iff hkeeps fun x hx => by cases x <;> first | rfl | cases hx
  | object properties ih =>
    have hdirect := directProperties_iff.1 h
    have hobject := hkeeps
    rw [mirror_object] at hobject
    obtain ⟨ws, -, rfl, -⟩ := Input.callWith_object_eq_ok.1 hobject
    exact reportWith_object_eq_ok_iff (fun p hp => (hdirect p hp).1) hkeeps fun p hp x w hx =>
      ih p hp (hdirect p hp).2 hx
  | list item ih =>
    obtain ⟨ys, -, rfl, -⟩ := Input.callWith_list_eq_ok.1 hkeeps
    have hitems := Input.keeps_list.1 hkeeps
    have hwritten : ∀ zs,
        List.Forall₂ (fun y z => reportWith checked item view y = some (.ok z)) ys zs ↔
          zs = ys.map Json.withoutNulls ∧
            ∀ y ∈ ys, Input.Keeps deferred item.mirror y.withoutNulls := fun _ =>
      forall₂_iff_eq_map fun y hy z => ih h (hitems y hy)
    rw [reportWith_list_eq_ok, Json.withoutNulls_array, mirror, Input.keeps_list,
      List.forall_mem_map]
    constructor
    · rintro ⟨_, zs, heq, rfl, hzs⟩
      obtain rfl := Json.array.inj heq
      obtain ⟨rfl, hall⟩ := (hwritten zs).1 hzs
      exact ⟨rfl, hall⟩
    · rintro ⟨rfl, hall⟩
      exact ⟨ys, _, rfl, rfl, (hwritten _).2 ⟨rfl, hall⟩⟩
  | optional inner ih =>
    rw [reportWith_optional_eq_ok, mirror, Input.keeps_optional]
    rcases Input.keeps_optional.1 hkeeps with rfl | ⟨hnull, hinner⟩
    · simp [Json.withoutNulls]
    · simp [hnull, ih h hinner, Json.withoutNulls_eq_null]
  | described _ _ ih | referenced _ _ ih =>
    rw [reportWith]
    exact ih h hkeeps
  | merge _ _ | viaMap _ _ | viewed _ _ _ | cond _ _ _ | chain _ _ | defer _ _ => exact h.elim

end Output

namespace Shape

variable {properties : List (Property Shape)} {defs : Dict Output}

/-! ## Direct shapes -/

mutual

/-- The shape is built from basic types, lists, optional shapes and objects whose members are read
from their own keys. -/
def Direct : Shape → Prop
  | .text _ | .number | .integer | .boolean | .null => True
  | .object properties => DirectProperties properties
  | .list a | .optional a | .described a _ | .referenced a _ => a.Direct
  | .viaMap _ _ | .record _ _ _ => False

/-- The same for properties. -/
def DirectProperties : List (Property Shape) → Prop
  | [] => True
  | ⟨key, extract, value, required, description⟩ :: rest =>
    Property.ReadsKey ⟨key, extract, value, required, description⟩ ∧ value.Direct ∧
      DirectProperties rest

end

theorem directProperties_iff :
    DirectProperties properties ↔ ∀ p ∈ properties, p.ReadsKey ∧ p.value.Direct := by
  induction properties with
  | nil => exact iff_of_true trivial (List.forall_mem_nil _)
  | cons p rest ih =>
    rw [List.forall_mem_cons, ← ih, and_assoc]
    exact Iff.rfl

/-- A direct shape has no record that could declare a key twice. -/
theorem Direct.distinct {s : Shape} (h : s.Direct) : s.Distinct := by
  induction s with
  | text _ | number | integer | boolean | null => trivial
  | list _ ih | optional _ ih | described _ _ ih | referenced _ _ ih => exact ih h
  | viaMap _ _ | record _ _ _ => exact h.elim
  | object properties ih =>
    exact distinctProperties_iff.2 fun p hp => ih p hp (directProperties_iff.1 h p hp).2

theorem directProperties_of_output {qs : List (Property Output)}
    (ih : ∀ p ∈ properties, ∀ o, p.value.Direct → p.value.output defs = .ok o → o.Direct)
    (h : DirectProperties properties) (hqs : outputProperties defs properties = .ok qs) :
    Output.DirectProperties qs := by
  induction properties generalizing qs with
  | nil =>
    obtain rfl := Except.ok.inj hqs
    trivial
  | cons p rest ihrest =>
    obtain ⟨o, ho, hqs⟩ := Except.bind_eq_ok.1 hqs
    obtain ⟨more, hmore, hqs⟩ := Except.bind_eq_ok.1 hqs
    obtain rfl := Except.ok.inj hqs
    obtain ⟨hkey, hvalue, hrest⟩ := h
    obtain ⟨ihp, ihmore⟩ := List.forall_mem_cons.1 ih
    exact ⟨hkey, ihp o hvalue ho, ihrest ihmore hrest hmore⟩

/-- The output of a direct shape is direct. -/
theorem Direct.output {s : Shape} (h : s.Direct) {o : Output} (ho : s.output defs = .ok o) :
    o.Direct := by
  induction s generalizing o with
  | text _ | number | integer | boolean | null =>
    obtain rfl := Except.ok.inj ho
    trivial
  | list _ ih | optional _ ih | described _ _ ih | referenced _ _ ih =>
    obtain ⟨inner, hinner, rfl⟩ := Except.map_eq_ok.1 ho
    have hdirect : inner.Direct := ih h hinner
    exact hdirect
  | viaMap _ _ | record _ _ _ => exact h.elim
  | object properties ih =>
    obtain ⟨qs, hqs, rfl⟩ := Except.map_eq_ok.1 ho
    exact directProperties_of_output (fun p hp o h ho => ih p hp h ho) h hqs

/-! ## Writing what was read -/

/-- **Writing what was read.** A direct shape is built on both sides. Let its input accept a value
as `w`. Then its output writes `w` as it is if and only if no object inside `w` has a null member;
and in general it writes `w` without its null members, if and only if the input accepts that too. -/
theorem writes_what_was_read [Regex.Engine] (s : Shape) (h : s.Direct) (idefs : Dict Input)
    (odefs : Dict Output) :
    ∃ i o, s.input = .ok i ∧ s.output odefs = .ok o ∧
      ∀ v w, Input.call idefs i v = some (.ok w) → ∀ view,
        (Output.report odefs o view w = some (.ok w) ↔ ¬w.NullMember) ∧
        ∀ w', Output.report odefs o view w = some (.ok w') ↔
          w' = w.withoutNulls ∧
            Input.call idefs i w.withoutNulls = some (.ok w.withoutNulls) := by
  obtain ⟨o, ho, hi, -⟩ := h.distinct.built odefs
  have hdirect : o.Direct := h.output ho
  refine ⟨o.mirror, o, hi, ho, fun v w hw view => ?_⟩
  rw [Input.call, Input.callAt_eq] at hw
  have hwritten : ∀ w', Output.report odefs o view w = some (.ok w') ↔ w' = w.withoutNulls ∧
      Input.call idefs o.mirror w.withoutNulls = some (.ok w.withoutNulls) := by
    intro w'
    rw [Output.report, Output.reportAt_eq, Input.call, Input.callAt_eq]
    exact hdirect.reportWith_eq_ok_iff (hdirect.keeps_of_call hw)
  refine ⟨?_, hwritten⟩
  rw [hwritten, ← Json.withoutNulls_eq_self_iff, eq_comm, and_iff_left_iff_imp]
  intro hsame
  rw [hsame, Input.call, Input.callAt_eq]
  exact hdirect.keeps_of_call hw

end Shape

namespace Shape

attribute [local instance] Regex.Engine.standard

/-- Tags, of which some are null, and a note, which is null. -/
theorem writes_what_was_read_tags :
    let s : Shape := .object [
      ⟨"tags", some (·.getOrNull "tags"), .list (.optional (.text none)), true, none⟩,
      ⟨"note", some (·.getOrNull "note"), .optional (.text none), false, none⟩]
    let v : Json := .object [("note", .null), ("id", .bool true),
      ("tags", .array [.string "a", .null])]
    let w : Json := .object [("tags", .array [.string "a", .null]), ("note", .null)]
    s.Direct ∧ ∃ i o, s.input = .ok i ∧ s.output [] = .ok o ∧ Input.call [] i v = some (.ok w) ∧
      Output.report [] o none w =
        some (.ok (.object [("tags", .array [.string "a", .null])])) := by
  intro s v w
  have hdirect : s.Direct := ⟨fun _ => rfl, trivial, fun _ => rfl, trivial, trivial⟩
  obtain ⟨i, o, hi, ho, hwritten⟩ := writes_what_was_read s hdirect [] []
  have hread : Input.call [] i v = some (.ok w) := by
    obtain rfl := Except.ok.inj hi
    rfl
  have hkept : Input.call [] i w.withoutNulls = some (.ok w.withoutNulls) := by
    obtain rfl := Except.ok.inj hi
    rfl
  exact ⟨hdirect, i, o, hi, ho, hread, ((hwritten v w hread none).2 _).2 ⟨rfl, hkept⟩⟩

/-- A note that is null is read as it is, and nothing is written of it. -/
theorem writes_what_was_read_note :
    let s : Shape := .object [
      ⟨"note", some (·.getOrNull "note"), .optional (.text none), false, none⟩]
    let v : Json := .object [("note", .null)]
    s.Direct ∧ ∃ i o, s.input = .ok i ∧ s.output [] = .ok o ∧ Input.call [] i v = some (.ok v) ∧
      Output.report [] o none v = some (.ok (.object [])) ∧
      Output.report [] o none v ≠ some (.ok v) := by
  intro s v
  refine ⟨⟨fun _ => rfl, trivial, trivial⟩, _, _, rfl, rfl, rfl, rfl, fun h => ?_⟩
  have hempty : Json.object [] = v := Except.ok.inj (Option.some.inj h)
  simp [v] at hempty

end Shape

end JsonShape
