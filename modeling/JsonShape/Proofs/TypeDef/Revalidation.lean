import JsonShape.Proofs.TypeDef.Meaning

/-!
# What type descriptions accept a second time

The input of a description accepts a value as a projection of it, and then meets the projection. It
accepts that too, if all types that the description names do (`accepts_again`). Without unions it
changes nothing any more (`accepts_unchanged`); with them it may, since the projection can be a
value of the left side even where the value was one of the right side only.

The first check and the second one may know different meanings of named types.
-/

namespace JsonShape

namespace TypeDef

variable [Regex.Engine] {registry : Registry} {first again : String → Json → Outcome} {d : TypeDef}
  {i : Input}
  {v w : Json}

/-- The input of a description accepts values as projections, if those of named types do. -/
theorem projects_of_input (hi : d.input registry = .ok i)
    (hnamed : ∀ name, d.Mentions name → ∀ u y, first name u = some (.ok y) → u.Projects y)
    (h : Input.callWith first i v = some (.ok w)) : v.Projects w := by
  let P (i : Input) (v : Json) : Prop :=
    ∀ w, Input.callWith first i v = some (.ok w) → v.Projects w
  have hstep : ∀ i v, i.isUnmapped → (∀ name, i ≠ .defer name) →
      (∀ j u, Input.Asks (j, u) (i, v) → P j u) → P i v :=
    fun i v hunmapped hlookup hparts w hw => Input.projects_of_asks hunmapped hlookup hparts hw
  refine of_scope (P := P) hstep hi (fun name u hu y hy => ?_) w h
  exact hnamed name hu.mentions u y hy

/-- What is known of a named type when it is checked a second time, by `again` after `first`. -/
structure Rereads (first again : String → Json → Outcome) (name : String) : Prop where
  answers : ∀ u, Input.Answers again (.defer name) u
  projects : ∀ u y, again name u = some (.ok y) → u.Projects y
  accepts : ∀ u y, first name u = some (.ok y) → Input.Accepts again (.defer name) y

/-- **What is accepted is accepted again**, by `again` after `first`, if named types are. -/
theorem accepts_again (hi : d.input registry = .ok i)
    (hnamed : ∀ name, d.Mentions name → Rereads first again name)
    (h : Input.callWith first i v = some (.ok w)) : Input.Accepts again i w := by
  induction d generalizing i v w with
  | struct keys ih =>
    obtain ⟨members, hmembers, rfl⟩ := input_struct hi
    obtain ⟨ms, ws, rfl, rfl, -, hread⟩ := Input.callWith_object_eq_ok.1 h
    refine Input.accepts_object.2 ⟨ws, rfl, fun m hm => ?_⟩
    obtain ⟨k, hk, hinput, -⟩ := exists_of_forall₂_of_mem
      (forall₂_of_keyInputs hmembers).flip (Member.mem_of_mem_distinct hm)
    rcases Input.callMember_eq_ok.1 (hread m hm) with ⟨-, hr, hnone⟩ | ⟨x, y, -, hy, hsome⟩
    · simp [hr, hnone]
    · have hagain : Input.Accepts again m.value y :=
        ih k hk hinput (fun name hname => hnamed name (mentions_struct.2 ⟨k, hk, hname⟩)) hy
      refine ⟨fun _ => by simp [Dict.contains, hsome], fun y' hy' => ?_⟩
      obtain rfl := Option.some.inj (hsome.symm.trans hy')
      exact hagain
  | sum left right ihl ihr =>
    -- where the right side accepted, the left one may do so now, but it has an answer
    have hanswers : Input.Answers again i w :=
      of_scope (fun _ _ _ => Input.answers_of_asks) hi fun name u hu =>
        (hnamed name hu.mentions).answers u
    obtain ⟨l, r, hl, hr, rfl⟩ := input_sum hi
    refine (Input.accepts_either hanswers).2 ?_
    rcases Input.callWith_either_eq_ok h with h | h
    · exact Or.inl (ihl hl (fun name hname => hnamed name (mentions_sum.2 (Or.inl hname))) h)
    · exact Or.inr (ihr hr (fun name hname => hnamed name (mentions_sum.2 (Or.inr hname))) h)
  | constrained base rules ih =>
    obtain ⟨b, hb, hi⟩ := input_constrained hi
    obtain ⟨test, hcontainer, hcall⟩ := (refined_refineAll hi).exists_test
    obtain ⟨hw, htest⟩ := (hcall first v w).1 h
    have hbase : ∀ name, base.Mentions name → Rereads first again name := fun name hname =>
      hnamed name (mentions_constrained.2 hname)
    obtain ⟨w', hw'⟩ := ih hb hbase hw
    have hprojects : w.Projects w' :=
      projects_of_input hb (fun name hname => (hbase name hname).projects) hw'
    have htest' : test w' := (hprojects.test_eq hcontainer).trans htest
    exact ⟨w', (hcall again w w').2 ⟨hw', htest'⟩⟩
  | array member ih =>
    obtain ⟨m, hm, rfl⟩ := input_array hi
    obtain ⟨xs, ys, rfl, rfl, hitems⟩ := Input.callWith_list_eq_ok.1 h
    refine Input.accepts_list.2 ⟨ys, rfl, fun y hy => ?_⟩
    obtain ⟨x, -, hx⟩ := exists_of_forall₂_of_mem hitems.flip hy
    exact ih hm (fun name hname => hnamed name (mentions_array.2 hname)) hx
  | enum values =>
    obtain rfl := input_enum hi
    exact accepts_enum_any.2 (Input.callWith_enum_eq_ok.1 h).2
  | scalar s =>
    obtain rfl := input_scalar hi
    obtain ⟨hadmits, rfl⟩ := callWith_scalarInput_eq_ok.1 h
    exact accepts_scalarInput.2 hadmits
  | named name =>
    obtain ⟨-, rfl⟩ := input_named hi
    exact (hnamed name (mentions_named.2 rfl)).accepts v w h

/-! ## Without unions -/

/-- No union stands in the description. -/
def SumFree (d : TypeDef) : Prop := ∀ left right, .sum left right ∉ d.parts

omit [Regex.Engine] in
theorem SumFree.of_parts {part : TypeDef} (h : d.SumFree) (hparts : ∀ p ∈ part.parts, p ∈ d.parts) :
    part.SumFree := fun left right hmem => h left right (hparts _ hmem)

/-- **Without unions, what is accepted is not changed any more**: `again` reads `w` as `w`. -/
theorem accepts_unchanged (hi : d.input registry = .ok i) (hfree : d.SumFree)
    (hnamed : ∀ name, d.Mentions name → ∀ u y, first name u = some (.ok y) →
      again name y = some (.ok y))
    (h : Input.callWith first i v = some (.ok w)) : Input.callWith again i w = some (.ok w) := by
  induction d generalizing i v w with
  | struct keys ih =>
    obtain ⟨members, hmembers, rfl⟩ := input_struct hi
    obtain ⟨ms, ws, rfl, rfl, hsub, hread⟩ := Input.callWith_object_eq_ok.1 h
    refine Input.callWith_object_eq_ok.2 ⟨ws, ws, rfl, rfl, hsub, fun m hm => ?_⟩
    obtain ⟨k, hk, hinput, -⟩ := exists_of_forall₂_of_mem
      (forall₂_of_keyInputs hmembers).flip (Member.mem_of_mem_distinct hm)
    refine Input.callMember_eq_ok.2 ?_
    rcases Input.callMember_eq_ok.1 (hread m hm) with ⟨-, hr, hnone⟩ | ⟨x, y, -, hy, hsome⟩
    · exact Or.inl ⟨hnone, hr, hnone⟩
    · have hsame : Input.callWith again m.value y = some (.ok y) :=
        ih k hk hinput (hfree.of_parts fun p hp => .tail _ (mem_keyParts.2 ⟨k, hk, hp⟩))
          (fun name hname => hnamed name (mentions_struct.2 ⟨k, hk, hname⟩)) hy
      exact Or.inr ⟨y, y, hsome, hsame, hsome⟩
  | sum left right _ _ => exact absurd (.head _) (hfree left right)
  | constrained base rules ih =>
    obtain ⟨b, hb, hi⟩ := input_constrained hi
    obtain ⟨test, -, hcall⟩ := (refined_refineAll hi).exists_test
    obtain ⟨hw, htest⟩ := (hcall first v w).1 h
    have hsame : Input.callWith again b w = some (.ok w) :=
      ih hb (hfree.of_parts fun p hp => .tail _ hp)
        (fun name hname => hnamed name (mentions_constrained.2 hname)) hw
    exact (hcall again w w).2 ⟨hsame, htest⟩
  | array member ih =>
    obtain ⟨m, hm, rfl⟩ := input_array hi
    obtain ⟨xs, ys, rfl, rfl, hitems⟩ := Input.callWith_list_eq_ok.1 h
    refine Input.callWith_list_eq_ok.2 ⟨ys, ys, rfl, rfl, List.forall₂_same.2 fun y hy => ?_⟩
    obtain ⟨x, -, hx⟩ := exists_of_forall₂_of_mem hitems.flip hy
    exact ih hm (hfree.of_parts fun p hp => .tail _ hp)
      (fun name hname => hnamed name (mentions_array.2 hname)) hx
  | enum values =>
    obtain rfl := input_enum hi
    exact Input.callWith_enum_eq_ok.2 ⟨rfl, (Input.callWith_enum_eq_ok.1 h).2⟩
  | scalar s =>
    obtain rfl := input_scalar hi
    obtain ⟨hadmits, rfl⟩ := callWith_scalarInput_eq_ok.1 h
    exact callWith_scalarInput_eq_ok.2 ⟨hadmits, rfl⟩
  | named name =>
    obtain ⟨-, rfl⟩ := input_named hi
    exact hnamed name (mentions_named.2 rfl) v w h

end TypeDef

end JsonShape
