import JsonShape.Proofs.Input.Documentation
import JsonShape.Proofs.Output.Components
import JsonShape.Proofs.Output.Limit

/-!
# Written values satisfy the documentation

What an output writes with checks satisfies the fragment that documents it
(`Output.satisfies_docAt`).

The outputs in question are *plain*: nothing is inherited, so that no member is written over another
one, and no component is named. Views, conditions and functions do not matter. Documentation lists
what each view may write, and a function makes the value that is checked.

* `Within`, `Plain`: the shapes inside an output, through lookups, and what they may be.
* `satisfies_docWith`: soundness for one tree, by induction on it.
* `satisfies_docAt`: the same through lookups, whatever the limits on them.
-/

namespace JsonShape

namespace Output

/-- Whether a node inherits nothing and names no component. -/
def isPlain : Output → Bool
  | .merge _ _ | .referenced _ _ => false
  | _ => true

/-- The shapes inside `root`, at any depth and through lookups in `defs`. -/
inductive Within (defs : Dict Output) (root : Output) : Output → Prop
  | root : Within defs root root
  | child {o q : Output} (h : Within defs root o) (hq : q ∈ o.children) : Within defs root q
  | defer {name : String} {base : Bool} {o : Output} (h : Within defs root (.defer name base))
    (ho : resolve? defs name base = some o) : Within defs root o

/-- Nothing that is `Within` the output inherits or names a component. -/
def Plain (defs : Dict Output) (o : Output) : Prop := ∀ q, Within defs o q → q.isPlain

variable {defs : Dict Output} {o q root : Output} {name : String} {base : Bool}
  {checked : Reporter} {components : Dict Json} {limit docLimit : Nat} {view : Option String}
  {v w : Json}

theorem Within.trans (h : Within defs root o) (h' : Within defs o q) : Within defs root q := by
  induction h' with
  | root => exact h
  | child _ hq ih => exact ih.child hq
  | defer _ ho ih => exact ih.defer ho

/-- Within an output lies the output itself, and what is within a part or a definition of it. -/
theorem Within.cases_root (h : Within defs o q) : q = o ∨ (∃ r ∈ o.children, Within defs r q) ∨
    ∃ name base r, o = .defer name base ∧ resolve? defs name base = some r ∧ Within defs r q := by
  induction h with
  | root => exact Or.inl rfl
  | child _ hq ih =>
    rcases ih with rfl | ⟨r, hr, h⟩ | ⟨name, base, r, ho, hr, h⟩
    · exact Or.inr (Or.inl ⟨_, hq, .root⟩)
    · exact Or.inr (Or.inl ⟨r, hr, h.child hq⟩)
    · exact Or.inr (Or.inr ⟨name, base, r, ho, hr, h.child hq⟩)
  | defer _ hq ih =>
    rcases ih with rfl | ⟨r, hr, h⟩ | ⟨name, base, r, ho, hr, h⟩
    · exact Or.inr (Or.inr ⟨_, _, _, rfl, hq, .root⟩)
    · exact Or.inr (Or.inl ⟨r, hr, h.defer hq⟩)
    · exact Or.inr (Or.inr ⟨name, base, r, ho, hr, h.defer hq⟩)

/-- A shape is plain if its node and its parts are. -/
theorem plain_of_children (ho : o.isPlain) (hdefer : ∀ name base, o ≠ .defer name base)
    (h : ∀ q ∈ o.children, Plain defs q) : Plain defs o := by
  intro q hq
  rcases hq.cases_root with rfl | ⟨r, hr, hq⟩ | ⟨name, base, _, hname, -⟩
  · exact ho
  · exact h r hr q hq
  · exact absurd hname (hdefer name base)

theorem plain_integer : Plain defs .integer := plain_of_children rfl nofun nofun

theorem plain_text (format : Option String) : Plain defs (.text format) :=
  plain_of_children rfl nofun nofun

theorem Plain.isPlain (h : Plain defs o) : o.isPlain := h o .root

theorem Plain.child (h : Plain defs o) (hq : q ∈ o.children) : Plain defs q :=
  fun r hr => h r ((Within.root.child hq).trans hr)

theorem Plain.defer (h : Plain defs (.defer name base)) (ho : resolve? defs name base = some o) :
    Plain defs o :=
  fun q hq => h q ((Within.root.defer ho).trans hq)

/-- The documentation of a plain output mentions no component. -/
theorem Plain.found (h : Plain defs o) : (docAt defs limit o).found = [] := by
  refine List.eq_nil_iff_forall_not_mem.2 fun e he => ?_
  have hplain : Plain defs (.referenced e.2 e.1) :=
    found_of_closed (P := Plain defs) (fun _ _ ho hq => ho.child hq)
      (fun _ _ _ hname ho => hname.defer ho) h e he
  exact Bool.false_ne_true hplain.isPlain

/-- A choice among views is a choice among the parts. -/
theorem chosen_mem_viewed (earlier later : Dict Output) (base : Output) (view : Option String) :
    chosen base ((baseView, base) :: (earlier ++ later)) view ∈
      children (.viewed earlier base later) :=
  chosen_viewed_induction (P := (· ∈ children (.viewed earlier base later)))
    (fun _ he => List.mem_append_left _ (List.mem_map_of_mem he))
    (List.mem_append_right _ (.head _))
    (fun _ he => List.mem_append_right _ (.tail _ (List.mem_map_of_mem he))) view

theorem chosen_mem_chain (base : Output) (views : Dict Output) (view : Option String) :
    chosen base views view ∈ children (.chain base views) :=
  chosen_induction (P := (· ∈ children (.chain base views))) (.head _)
    (fun _ he => .tail _ (List.mem_map_of_mem he)) view

/-- **What a plain shape writes satisfies its documentation**, if that is so of deferred
definitions, by induction on `o`. -/
theorem satisfies_docWith [Regex.Engine]
    (hdeferred : ∀ name base, Plain defs (.defer name base) → ∀ view v w,
      checked name base view v = some (.ok w) →
        Satisfies components (docLookup defs docLimit name base).fragment w)
    (h : Plain defs o) (hw : reportWith checked o view v = some (.ok w)) :
    Satisfies components (docWith (docLookup defs docLimit) o).fragment w := by
  have hcheck : ∀ {accepted : Bool} {message : String} {v w : Json},
      some (Checked.check accepted message v) = some (.ok w) → w = v ∧ accepted := fun hw =>
    (Checked.check_eq_ok.1 (Option.some.inj hw)).symm
  induction o using of_children generalizing view v w with
  | h o ih =>
    -- the documentation of views is a union of what documents the parts
    have hone : ∀ q ∈ o.children, reportWith checked q view v = some (.ok w) →
        Satisfies components
          (Doc.combine (o.children.map (docWith (docLookup defs docLimit)))
            Fragment.oneOf).fragment w := by
      intro q hq hw
      refine Fragment.satisfies_oneOf.2 ⟨_, ?_, ih q hq (h.child hq) hw⟩
      exact List.mem_map_of_mem (List.mem_map_of_mem hq)
    cases o with
    | text format =>
      obtain ⟨rfl, hstring⟩ := hcheck hw
      cases format with
      | none => exact satisfies_type.2 hstring
      | some format => exact satisfies_format.2 hstring
    | number | integer | boolean =>
      obtain ⟨rfl, htype⟩ := hcheck hw
      exact satisfies_type.2 htype
    | null =>
      obtain ⟨rfl, hnull⟩ := hcheck hw
      obtain rfl := Json.isNull_iff.1 hnull
      exact .null rfl
    | object properties =>
      obtain ⟨ws, rfl, -, hwritten⟩ := reportWith_object_eq_ok.1 hw
      have hdistinct : Member.distinct (properties.map (withDoc (docLookup defs docLimit))) =
          (inForce properties).map (withDoc (docLookup defs docLimit)) :=
        distinct_declared (fun p => docWith (docLookup defs docLimit) p.value) properties
      rw [docWith_object]
      refine Doc.satisfies_record.2 ⟨ws, rfl, ?_⟩
      rw [hdistinct]
      refine List.forall_mem_map.2 fun p hp => ?_
      have hq : p.value ∈ children (.object properties) :=
        List.mem_map_of_mem (mem_of_mem_inForce hp)
      rcases reportProperty_eq_ok.1 (hwritten p hp) with ⟨-, hoptional, hnone⟩ | ⟨-, y, hy, hsome⟩
      · refine ⟨fun hrequired => ?_, fun x hx => by cases hnone.symm.trans hx⟩
        cases hoptional.symm.trans hrequired
      · refine ⟨fun _ => Option.isSome_iff_exists.2 ⟨y, hsome⟩, fun x hx => ?_⟩
        obtain rfl : y = x := Option.some.inj (hsome.symm.trans hx)
        exact ih _ hq (h.child hq) hy
    | merge _ _ | referenced _ _ => exact absurd h.isPlain Bool.false_ne_true
    | list item =>
      obtain ⟨xs, ys, -, rfl, hys⟩ := reportWith_list_eq_ok.1 hw
      refine Fragment.satisfies_array.2 ⟨ys, rfl, fun y hy => ?_⟩
      obtain ⟨x, -, hx⟩ := exists_of_forall₂_of_mem hys.flip hy
      exact ih _ (.head _) (h.child (.head _)) hx
    | optional inner =>
      refine Fragment.satisfies_nullable.2 ((reportWith_optional_eq_ok.1 hw).imp And.right ?_)
      exact fun hw => ih _ (.head _) (h.child (.head _)) hw.2
    | described inner text =>
      exact Fragment.satisfies_described.2 (ih _ (.head _) (h.child (.head _)) hw)
    | viaMap inner f =>
      rw [reportWith] at hw
      exact ih _ (.head _) (h.child (.head _)) hw
    | viewed earlier base later =>
      rw [(alike_viewed ..).report] at hw
      rw [docWith_viewed]
      exact hone _ (chosen_mem_viewed ..) hw
    | cond test holds otherwise =>
      rw [reportWith] at hw
      split at hw
      · exact hone _ (.head _) hw
      · exact hone _ (.tail _ (.head _)) hw
    | chain base views =>
      rw [(alike_chain ..).report] at hw
      rw [docWith_chain]
      exact hone _ (chosen_mem_chain ..) hw
    | defer name base => exact hdeferred name base h view v w hw

/-- **What a plain shape writes satisfies its documentation**, whatever `limit` and `docLimit` are,
by induction on the first, which is the one for writing. -/
theorem satisfies_docAt [Regex.Engine] (h : Plain defs o)
    (hw : reportAt defs limit o view v = some (.ok w)) :
    Satisfies components (docAt defs docLimit o).fragment w := by
  induction limit generalizing o view v w docLimit with
  | zero =>
    rw [reportAt_eq] at hw
    rw [docAt_eq]
    exact satisfies_docWith (fun _ _ _ _ _ _ hw => by cases hw) h hw
  | succ limit ih =>
    rw [reportAt_eq] at hw
    rw [docAt_eq]
    refine satisfies_docWith (fun name base hname view v w hw => ?_) h hw
    rw [reportLookup_succ] at hw
    obtain ⟨q, hq, hw⟩ := Option.bind_eq_some_iff.1 hw
    cases docLimit with
    | zero => exact satisfies_empty
    | succ docLimit =>
      rw [docLookup_succ, hq]
      exact ih (hname.defer hq) hw

end Output

end JsonShape
