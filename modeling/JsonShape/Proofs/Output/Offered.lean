import JsonShape.Proofs.Output.Lookup
import JsonShape.Proofs.Output.Selection

/-!
# Views that are listed and views that can be selected

An output lists the names of its views, and it selects a view of a name. What can be selected is
listed, or is the default view, which is there always. What is listed can be selected, but for one
kind of shape: a test of the value lists the views of both its sides and selects none of them. It
does so wherever it stands on the way to the views, so that the wrappers of a test list views that
they cannot select either.

* `Met`: what is met on the way from the outside of an output to its views. That is a test of the
  value for a `Conditional` output, and a merge whose child has views for an `Overlaid` one. Records
  and blueprints are neither, however they are wrapped (`Wrapped.not_met`).
* `view_isOk_iff`: which views can be selected.
* `listed_view_refused`: a view that is listed and cannot be selected.
-/

namespace JsonShape

namespace Output

variable {defs : Dict Output} {o x core : Output} {name : String} {limit : Nat}

/-! ## On the way to the views -/

/-- An output of the kind `P` is met on the way from the outside to the views. Nothing but wrapping,
inheritance and definitions stands in between. -/
inductive Met (defs : Dict Output) (P : Output → Prop) : Output → Prop
  | here {x : Output} (h : P x) : Met defs P x
  | merge (parent : Output) {child : Output} (h : Met defs P child) :
      Met defs P (.merge parent child)
  | list {x : Output} (h : Met defs P x) : Met defs P (.list x)
  | optional {x : Output} (h : Met defs P x) : Met defs P (.optional x)
  | described {x : Output} (h : Met defs P x) (text : String) : Met defs P (.described x text)
  | referenced {x : Output} (h : Met defs P x) (component : String) :
      Met defs P (.referenced x component)
  | viaMap {x : Output} (h : Met defs P x) (f : Json → Json) : Met defs P (.viaMap x f)
  | defer {x : Output} {n : String} {base : Bool} (hx : resolve? defs n base = some x)
      (h : Met defs P x) : Met defs P (.defer n base)

/-- A test of the value. -/
inductive IsTest : Output → Prop
  | cond (test : Json → Option String → Bool) (holds otherwise : Output) :
      IsTest (.cond test holds otherwise)

/-- A merge whose child has views. -/
inductive IsOverlay (defs : Dict Output) : Output → Prop
  | merge (parent : Output) {child : Output} (h : (viewOf? defs child baseView).isSome) :
      IsOverlay defs (.merge parent child)

/-- The views of `o` are those of a test of the value: one is `Met` on the way to them. -/
def Conditional (defs : Dict Output) (o : Output) : Prop := Met defs IsTest o

/-- The views of `o` are those of the child of a merge: one is `Met` on the way to them. -/
def Overlaid (defs : Dict Output) (o : Output) : Prop := Met defs (IsOverlay defs) o

theorem Met.mono {P Q : Output → Prop} (h : Met defs P o) (hPQ : ∀ x, P x → Q x) :
    Met defs Q o := by
  induction h with
  | here h => exact .here (hPQ _ h)
  | merge parent _ ih => exact ih.merge parent
  | list _ ih => exact ih.list
  | optional _ ih => exact ih.optional
  | described _ text ih => exact ih.described text
  | referenced _ component ih => exact ih.referenced component
  | viaMap _ f ih => exact ih.viaMap f
  | defer hx _ ih => exact ih.defer hx

/-- Records and blueprints have their views themselves, or have none. -/
theorem Selectable.not_met (h : Selectable defs core) :
    ¬Met defs (fun x => IsTest x ∨ IsOverlay defs x) core := by
  intro hmet
  cases h with
  | record h =>
    rcases h.output_cases with houtput | ⟨_, houtput, _⟩
    · obtain @⟨_, parent, _, _, _, -, h⟩ := h
      obtain ⟨-, -, -, hown, hinherited, hbase, -⟩ := OutputStruct.build_eq_ok.1 h
      rw [houtput, hbase, hinherited, hown] at hmet
      have hobject : ∀ properties, ¬Met defs (fun x => IsTest x ∨ IsOverlay defs x)
          (.object properties) := by
        rintro _ ⟨h⟩
        rcases h with h | h <;> cases h
      cases hmet with
      | here h => rcases h with h | h <;> cases h
      | referenced hmet =>
        cases parent with
        | none => exact hobject _ hmet
        | some p =>
          cases hmet with
          | merge _ hmet => exact hobject _ hmet
          | here h =>
            -- the child is an object and has no views
            obtain ⟨_, h⟩ := h.resolve_left fun h => by cases h
            rw [viewOf?, viewAt_eq] at h
            cases h
    · rw [houtput] at hmet
      obtain ⟨h⟩ := hmet
      rcases h with h | h <;> cases h
  | blueprint _ =>
    obtain ⟨h⟩ := hmet
    rcases h with h | h <;> cases h

/-- Wrapping adds no test and no parent. -/
theorem Wrapped.not_met {deferred : List String} (hcore : Selectable defs core)
    (h : Wrapped defs core deferred x) : ¬Met defs (fun x => IsTest x ∨ IsOverlay defs x) x := by
  induction h with
  | core => exact hcore.not_met
  | list _ ih | optional _ ih | viaMap _ _ ih | described _ _ ih | referenced _ _ ih =>
    intro hmet
    cases hmet with
    | here h => rcases h with h | h <;> cases h
    | _ => exact ih ‹_›
  | defer hget _ ih =>
    intro hmet
    cases hmet with
    | here h => rcases h with h | h <;> cases h
    | defer hx h =>
      rw [resolve?_whole hget, Option.some_inj] at hx
      exact ih (hx ▸ h)

/-- A test has no view of its own, and neither has what lies around it. -/
theorem viewOf?_of_conditional (h : Conditional defs o) (name : String) :
    viewOf? defs o name = none := by
  induction h with
  | here h =>
    obtain ⟨test, holds, otherwise⟩ := h
    rw [viewOf?, viewAt_eq]
    rfl
  | merge _ _ ih =>
    rw [viewOf?, viewAt_eq] at ih ⊢
    exact ih
  | list _ ih => rw [viewOf?, viewAt_list, ← viewOf?, ih, Option.map_none]
  | optional _ ih => rw [viewOf?, viewAt_optional, ← viewOf?, ih, Option.map_none]
  | viaMap _ f ih => rw [viewOf?, viewAt_viaMap, ← viewOf?, ih, Option.map_none]
  | described _ _ ih => rw [viewOf?, viewAt_described, ← viewOf?, ih]
  | referenced _ _ ih => rw [viewOf?, viewAt_referenced, ← viewOf?, ih]
  | defer hx _ ih => rw [viewOf?_defer, hx, Option.bind_some, ih]

/-! ## What is selected is listed -/

theorem mem_viewNamesWith {selector : Selector}
    {names : (name : String) → (base : Bool) → List String}
    (hdeferred : ∀ n base, (selector n base name).isSome → name ∈ names n base)
    (h : (viewWith selector o name).isSome) : name ∈ viewNamesWith names o := by
  have hviews : ∀ {base : Output} {views : Dict Output},
      (if name = baseView then some base else Dict.get? views name).isSome →
        name ∈ baseView :: Dict.names views := by
    intro base views hsome
    split at hsome
    · next hbase => exact List.mem_cons.2 (Or.inl hbase)
    · exact .tail _ (Dict.contains_iff.1 hsome)
  induction o with
  | text _ | number | integer | boolean | null | object _ _ | cond _ _ _ _ _ => cases h
  | merge _ child _ ih => exact ih h
  | list a ih | optional a ih | viaMap a _ ih =>
    rw [viewWith, Option.isSome_map] at h
    exact ih h
  | described a _ ih | referenced a _ ih => exact ih h
  | viewed earlier base later =>
    have hmem := hviews h
    rw [Dict.names, List.map_append] at hmem
    rw [viewNamesWith, mem_insertNames, List.mem_append, List.mem_cons]
    rw [List.mem_cons, List.mem_append] at hmem
    exact Or.inl (or_left_comm.1 hmem)
  | chain base views => exact mem_insertNames.2 (Or.inl (hviews h))
  | defer n base => exact hdeferred n base h

/-- **What is selected is listed**: whatever `viewAt` finds is among the names that `viewNamesAt`
finds. -/
theorem mem_viewNamesAt (hle : limit ≤ lookupLimit defs) (h : (viewAt defs limit o name).isSome) :
    name ∈ viewNamesAt defs limit o := by
  induction limit generalizing o with
  | zero =>
    rw [viewAt_eq] at h
    refine mem_viewNamesWith ?_ h
    exact fun _ _ hnone => absurd hnone Bool.false_ne_true
  | succ limit ih =>
    have hle' : limit ≤ lookupLimit defs := Nat.le_of_succ_le hle
    rw [viewAt_eq] at h
    refine mem_viewNamesWith (fun n base h => ?_) h
    rw [viewLookup_eq_bind] at h
    rw [resolve?_eq]
    cases hd : defs.get? n with
    | none => simp [hd] at h
    | some d =>
      rw [hd, Option.bind_some] at h
      rw [Option.map_some, resolveAt_eq_of_isSome hle' (isSome_base_of_isSome h)]
      exact ih hle' h

/-! ## What is listed can be selected -/

theorem isSome_viewOf?_of_mem_with {names : (name : String) → (base : Bool) → List String}
    (hdeferred : ∀ n base, name ∈ names n base → ¬Conditional defs (.defer n base) →
      (viewOf? defs (.defer n base) name).isSome)
    (h : name ∈ viewNamesWith names o) (ho : ¬Conditional defs o) :
    (viewOf? defs o name).isSome := by
  induction o with
  | text _ | number | integer | boolean | null | object _ _ => cases h
  | cond test holds otherwise => exact absurd (.here (.cond test holds otherwise)) ho
  | merge parent child _ ih =>
    have hchild := ih h fun hc => ho (hc.merge parent)
    rw [viewOf?, viewAt_eq] at hchild ⊢
    exact hchild
  | list a ih =>
    rw [viewOf?, viewAt_list, Option.isSome_map]
    exact ih h fun hc => ho hc.list
  | optional a ih =>
    rw [viewOf?, viewAt_optional, Option.isSome_map]
    exact ih h fun hc => ho hc.optional
  | viaMap a f ih =>
    rw [viewOf?, viewAt_viaMap, Option.isSome_map]
    exact ih h fun hc => ho (hc.viaMap f)
  | described a text ih =>
    rw [viewOf?, viewAt_described]
    exact ih h fun hc => ho (hc.described text)
  | referenced a component ih =>
    rw [viewOf?, viewAt_referenced]
    exact ih h fun hc => ho (hc.referenced component)
  | viewed earlier base later =>
    rw [viewNamesWith, mem_insertNames, List.mem_append, List.mem_cons] at h
    have hmem : name ∈ baseView :: Dict.names (earlier ++ later) := by
      rw [Dict.names, List.map_append, List.mem_cons, List.mem_append, or_left_comm]
      exact h.resolve_right List.not_mem_nil
    rw [viewOf?, viewAt_viewed, chosen_eq_of_mem hmem, Option.isSome_some]
  | chain base views =>
    rw [viewNamesWith, mem_insertNames] at h
    rw [viewOf?, viewAt_chain, chosen_eq_of_mem (h.resolve_right List.not_mem_nil),
      Option.isSome_some]
  | defer n base => exact hdeferred n base h ho

/-- **What is listed can be selected, unless a test lists it** (`Conditional`). -/
theorem isSome_viewOf?_of_mem (h : name ∈ viewNamesAt defs limit o) (ho : ¬Conditional defs o) :
    (viewOf? defs o name).isSome := by
  induction limit generalizing o with
  | zero =>
    refine isSome_viewOf?_of_mem_with ?_ h ho
    exact fun _ _ hnil => absurd hnil List.not_mem_nil
  | succ limit ih =>
    refine isSome_viewOf?_of_mem_with (fun n base h hdefer => ?_) h ho
    rw [viewOf?_defer]
    cases hx : resolve? defs n base with
    | none =>
      rw [hx] at h
      exact absurd h List.not_mem_nil
    | some x =>
      rw [hx] at h
      exact ih h fun hc => hdefer (hc.defer hx)

/-! ## The views that can be selected -/

theorem exists_view_eq_ok : (∃ s, view defs o name = .ok s) ↔
    name = baseView ∨ (viewOf? defs o name).isSome := by
  rw [view]
  cases viewOf? defs o name with
  | some s => exact iff_of_true ⟨s, rfl⟩ (Or.inr rfl)
  | none =>
    by_cases hbase : name = baseView
    · exact iff_of_true ⟨o, if_pos hbase⟩ (Or.inl hbase)
    · simp [hbase]

/-- **The views that can be selected** of an output `o` are the default view and the listed ones,
but for those that a test of the value lists (`Conditional`). No test stands on the way to the views
of records and blueprints, however they are wrapped, and a record `r` selects like its output. -/
theorem view_isOk_iff (defs : Dict Output) (name : String) :
    (∀ o, (∃ s, view defs o name = .ok s) ↔
      name = baseView ∨ name ∈ viewNames defs o ∧ ¬Conditional defs o) ∧
    (∀ r : OutputStruct, (∃ s, r.view defs name = .ok s) ↔ ∃ s, view defs r.output name = .ok s) ∧
    ∀ core deferred x, Selectable defs core → Wrapped defs core deferred x →
      ¬Conditional defs x := by
  refine ⟨fun o => ?_, fun r => ?_, fun _ _ _ hcore h hc =>
    h.not_met hcore (hc.mono fun _ => Or.inl)⟩
  · have hiff : (viewOf? defs o name).isSome ↔ name ∈ viewNames defs o ∧ ¬Conditional defs o :=
      ⟨fun h => ⟨mem_viewNamesAt le_rfl h, fun hc => by simp [viewOf?_of_conditional hc] at h⟩,
        fun h => isSome_viewOf?_of_mem h.1 h.2⟩
    rw [exists_view_eq_ok, hiff]
  · rw [exists_view_eq_ok, OutputStruct.view, OutputStruct.viewOf?]
    by_cases hbase : name = baseView
    · simp [hbase]
    · cases h : viewOf? defs r.output name <;> simp [hbase]

/-- Of people who are listed and may be missing, the details can be selected, and there is no brief
view. -/
theorem view_isOk_iff_people :
    let id : Field := ⟨"id", .ready .integer, none, none, true⟩
    let friend : Field := ⟨"friend", .lazy "Person", none, none, false⟩
    let base : Output :=
      .referenced (.object [⟨"id", some (·.getOrNull "id"), .integer, true, none⟩]) "Person"
    let detail : Output := .referenced (.merge base (.object
      [⟨"friend", some (·.getOrNull "friend"), .defer "Person" true, false, none⟩])) "Person.detail"
    let person : Output := .viewed [] base [("detail", detail)]
    let defs : Dict Output := [("Person", person)]
    let people : Output := .list (.optional (.defer "Person" false))
    OutputStruct.build defs "Person" none [id] [("detail", [friend])] =
        .ok ⟨"Person", .object [⟨"id", some (·.getOrNull "id"), .integer, true, none⟩],
          .object [⟨"id", some (·.getOrNull "id"), .integer, true, none⟩], base, person⟩ ∧
      ¬Conditional defs people ∧
      (∃ s, view defs people "detail" = .ok s) ∧ ¬∃ s, view defs people "brief" = .ok s := by
  intro id friend base detail person defs people
  have hbuild : OutputStruct.build defs "Person" none [id] [("detail", [friend])] = .ok _ := rfl
  have hrecord : Selectable defs person :=
    .record (@OutputStruct.Built.mk defs "Person" none _ _ _ nofun hbuild)
  have hdefer : Wrapped defs person ["Person"] (.defer "Person" false) := .defer rfl .core
  have hplain := (view_isOk_iff defs "detail").2.2 _ _ _ hrecord hdefer.optional.list
  refine ⟨hbuild, hplain, ((view_isOk_iff defs "detail").1 _).2 (Or.inr ⟨by decide, hplain⟩), ?_⟩
  have hbrief : ¬("brief" = baseView ∨ "brief" ∈ viewNames defs people) := by decide
  exact fun h => hbrief ((((view_isOk_iff defs "brief").1 _).1 h).imp_right And.left)

/-- A test between texts that may be written in upper case both ways: it lists that view and writes
it, and does not let it be selected. -/
theorem listed_view_refused :
    let upper : Json → Json := fun
      | .string s => .string s.toUpper
      | v => v
    let texts : Output := .viewed [] (.text none) [("upper", .viaMap (.text none) upper)]
    let o : Output := onView "short" texts texts
    "upper" ∈ viewNames [] o ∧
      (∀ s, call [] o (some "upper") (.string s) = some (.string s.toUpper)) ∧
      view [] o "upper" = .error (.unknownView "upper") :=
  ⟨by decide, fun _ => rfl, rfl⟩

end Output

end JsonShape
