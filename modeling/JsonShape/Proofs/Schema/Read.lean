import JsonShape.Proofs.Json.Depth
import JsonShape.Proofs.Schema.Parameter
import JsonShape.Proofs.Schema.Throughout

/-!
# Reading a fragment

Whoever reads a fragment follows references and enters the members that are listed under some
keywords. `Parameter.shape` reads intersections only, and so often at most that it comes to an end
where components refer to one another. Those are enough steps: whatever can be read is read without
following a reference twice (`ReadsOnce.of_reads`), and each component is entered once on the way.

* `Parameter.Reads`: a fragment that is read from another.
* `Parameter.visited`: the fragments that are merged within some steps.
* `Reads.mem_visited`, `reads_of_mem_visited`: they are those that are read.
-/

namespace JsonShape

namespace Parameter

open Fragment

variable {keywords : List String} {components D E : Dict Json} {f g : Json} {name : String}
  {steps : Nat}

/-! ## What is read -/

/-- The second fragment is read from the first one, through references and the members under some
`keywords`. -/
inductive Reads (keywords : List String) (components : Dict Json) : Json → Json → Prop
  | here (f : Json) : Reads keywords components f f
  | reference {f target g : Json} {name : String} (hname : referencedName f = some name)
    (htarget : components.get? name = some target) (h : Reads keywords components target g) :
    Reads keywords components f g
  | member {f member g : Json} {key : String} {members : List Json} (hkey : key ∈ keywords)
    (hmembers : f.get? key = some (.array members)) (hmember : member ∈ members)
    (h : Reads keywords components member g) : Reads keywords components f g

/-- The second fragment is read from the first one through references and intersections, and no
reference is followed twice. -/
inductive ReadsOnce : Dict Json → Json → Json → Prop
  | here (D : Dict Json) (f : Json) : ReadsOnce D f f
  | reference {D : Dict Json} {f target g : Json} {name : String}
    (hname : referencedName f = some name) (htarget : D.get? name = some target)
    (h : ReadsOnce (D.erase name) target g) : ReadsOnce D f g
  | member {D : Dict Json} {f member g : Json} {members : List Json}
    (hmembers : f.get? "allOf" = some (.array members)) (hmember : member ∈ members)
    (h : ReadsOnce D member g) : ReadsOnce D f g

theorem ReadsOnce.mono (h : ReadsOnce D f g) (hDE : D.Le E) : ReadsOnce E f g := by
  induction h generalizing E with
  | here D f => exact .here E f
  | reference hname htarget _ ih => exact .reference hname (hDE _ _ htarget) (ih (hDE.erase _))
  | member hmembers hmember _ ih => exact .member hmembers hmember (ih hDE)

/-- A way either avoids a component or goes through it, and then the rest of it, behind the last
visit, avoids it. -/
theorem ReadsOnce.avoid {target : Json} (h : ReadsOnce D f g)
    (htarget : D.get? name = some target) :
    ReadsOnce (D.erase name) f g ∨ ReadsOnce (D.erase name) target g := by
  induction h with
  | here D f => exact Or.inl (.here _ f)
  | @reference D f next g k hk hnext hrest ih =>
    by_cases hsame : k = name
    · subst hsame
      obtain rfl := Option.some.inj (hnext.symm.trans htarget)
      exact Or.inr hrest
    · have hthere : (D.erase k).get? name = some target := by
        rw [Dict.get?_erase, if_neg hsame, htarget]
      have hcomm : ((D.erase k).erase name).Le ((D.erase name).erase k) := fun n v hv => by
        simp only [Dict.get?_erase] at hv ⊢
        split at hv <;> simp_all
      refine (ih hthere).imp (fun h => ?_) fun h => h.mono (hcomm.trans (Dict.erase_le _ k))
      refine .reference hk ?_ (h.mono hcomm)
      rw [Dict.get?_erase, if_neg (Ne.symm hsame), hnext]
  | member hmembers hmember _ ih => exact (ih htarget).imp_left (.member hmembers hmember)

/-- Whatever is read can be read without following a reference twice. -/
theorem ReadsOnce.of_reads (h : Reads ["allOf"] components f g) : ReadsOnce components f g := by
  induction h with
  | here f => exact .here _ f
  | reference hname htarget _ ih => exact .reference hname htarget ((ih.avoid htarget).elim id id)
  | member hkey hmembers hmember _ ih =>
    obtain rfl := List.mem_singleton.1 hkey
    exact .member hmembers hmember ih

/-! ## What is merged -/

/-- The members of an intersection, none of any other fragment. -/
def members (f : Json) : List Json := ((f.get? "allOf").bind Json.items?).getD []

/-- The fragments that `flatten` merges within some steps, each with references followed. -/
def visited (components : Dict Json) : (steps : Nat) → Json → List Json
  | 0, f => [f]
  | steps + 1, f => f :: (members f).flatMap fun m =>
      visited components steps (resolve components.length components m)

theorem bind_items?_eq_some {o : Option Json} {ms : List Json} :
    o.bind Json.items? = some ms ↔ o = some (.array ms) := by
  rw [Option.bind_eq_some_iff]
  constructor
  · rintro ⟨arg, rfl, h⟩
    cases arg with
    | array xs => rw [← Option.some.inj h]
    | _ => cases h
  · rintro rfl
    exact ⟨_, rfl, rfl⟩

theorem members_of_get? {ms : List Json} (h : f.get? "allOf" = some (.array ms)) :
    members f = ms := by
  rw [members, h]
  rfl

theorem mem_visited_self (steps : Nat) (f : Json) : f ∈ visited components steps f := by
  cases steps <;> exact .head _

theorem reads_resolve (hDE : D.Le components)
    (h : Reads keywords components (resolve steps D f) g) : Reads keywords components f g := by
  induction steps generalizing D f with
  | zero => exact h
  | succ steps ih =>
    rw [resolve] at h
    split at h
    · exact h
    · next name hname =>
      split at h
      · exact h
      · next target htarget =>
        exact .reference hname (hDE _ _ htarget) (ih ((Dict.erase_le D name).trans hDE) h)

theorem reads_of_mem_visited (h : g ∈ visited components steps f) :
    Reads ["allOf"] components f g := by
  induction steps generalizing f with
  | zero =>
    obtain rfl := List.mem_singleton.1 h
    exact .here g
  | succ steps ih =>
    rcases List.mem_cons.1 h with rfl | h
    · exact .here g
    · obtain ⟨m, hm, hg⟩ := List.mem_flatMap.1 h
      cases hall : (f.get? "allOf").bind Json.items? with
      | none =>
        rw [members, hall] at hm
        cases hm
      | some ms =>
        have hms := bind_items?_eq_some.1 hall
        rw [members_of_get? hms] at hm
        exact .member (.head _) hms hm (reads_resolve (Dict.Le.refl _) (ih hg))

/-- How many steps a list of components is worth: the depths of all. -/
def weight (components : Dict Json) : Nat := total (fun e => e.2.depth + 1) components

theorem weight_erase_le {target : Json} (h : D.get? name = some target) :
    target.depth + 1 + weight (D.erase name) ≤ weight D :=
  total_erase_le (fun e => e.2.depth + 1) h

theorem length_erase_lt {target : Json} (h : D.get? name = some target) :
    (D.erase name).length < D.length :=
  List.length_filter_lt_length_iff_exists.2 ⟨(name, target), Dict.mem_of_get? h, by simp⟩

/-- A fragment with another keyword is no reference. -/
theorem referencedName_of_alone {key : String} {arg : Json} (hf : Alone f)
    (h : f.get? key = some arg) (hkey : key ≠ refKey) : referencedName f = none := by
  refine referencedName_of_get? (Option.eq_none_iff_forall_ne_some.2 fun target htarget => ?_)
  have hnone : f.get? key = none := hf (by rw [isReference, htarget]; rfl) key hkey
  cases hnone.symm.trans h

/-- **What is left to read behind references**: `resolve` leads to a fragment that is none, and no
reference that was followed is followed from there on. -/
theorem ReadsOnce.behind (h : ReadsOnce D f g) (hg : referencedName g = none)
    (hf : Throughout Alone f) (hE : ThroughoutAll Alone E) (hDE : D.Le E)
    (hsteps : D.length ≤ steps) :
    ∃ D', referencedName (resolve steps E f) = none ∧ ReadsOnce D' (resolve steps E f) g ∧
      D'.Le D ∧ D'.length ≤ D.length ∧
      (resolve steps E f).depth + weight D' ≤ f.depth + weight D := by
  induction h generalizing E steps with
  | here D f =>
    rw [resolve_of_none hg]
    exact ⟨D, hg, .here D f, .refl D, Nat.le_refl _, Nat.le_refl _⟩
  | @reference D f target g name hname htarget _ ih =>
    have hlength := length_erase_lt htarget
    have hweight := weight_erase_le htarget
    obtain ⟨steps, rfl⟩ : ∃ n, steps = n + 1 := Nat.exists_eq_succ_of_ne_zero (by omega)
    have hresolve : resolve (steps + 1) E f = resolve steps (E.erase name) target := by
      rw [resolve, hname]
      simp only [hDE _ _ htarget]
    have hlast : (D.erase name).length ≤ steps := by omega
    obtain ⟨D', hleaf, hreads, hle, hlen, hw⟩ :=
      ih hg (hE _ _ (hDE _ _ htarget)) (hE.erase name) (hDE.erase name) hlast
    rw [hresolve]
    exact ⟨D', hleaf, hreads, hle.trans (Dict.erase_le D name), by omega, by omega⟩
  | @member D f member g members hmembers hmember hrest _ =>
    have hleaf := referencedName_of_alone hf.here hmembers (by decide)
    rw [resolve_of_none hleaf]
    exact ⟨D, hleaf, .member hmembers hmember hrest, .refl D, Nat.le_refl _, Nat.le_refl _⟩

/-- Whatever holds throughout a fragment and the components holds throughout what a reference
leads to. -/
theorem throughout_resolve {P : Json → Prop} (hf : Throughout P f)
    (hD : ThroughoutAll P D) (steps : Nat) :
    Throughout P (resolve steps D f) := by
  induction steps generalizing D f with
  | zero => exact hf
  | succ steps ih =>
    rw [resolve]
    split
    · exact hf
    · next name _ =>
      split
      · exact hf
      · next target htarget =>
        exact ih (hD _ _ htarget) (hD.erase name)

theorem depth_lt_of_member {key : String} {members : List Json} {m : Json}
    (hmembers : f.get? key = some (.array members)) (hm : m ∈ members) : m.depth < f.depth := by
  cases f with
  | object ms => exact (Json.depth_lt_of_mem hm).trans (Json.depth_lt_of_get? hmembers)
  | _ => cases hmembers

/-- **Enough steps are enough**: what can be read from a fragment that is no reference is `visited`,
if there are as many steps as the fragment and the components are deep. -/
theorem ReadsOnce.mem_visited (h : ReadsOnce D f g) (hg : referencedName g = none)
    (hleaf : referencedName f = none) (hf : Throughout Alone f)
    (hcomponents : ThroughoutAll Alone components)
    (hD : D.Le components) (hlength : D.length ≤ components.length)
    (hsteps : f.depth + weight D ≤ steps) : g ∈ visited components steps f := by
  induction steps generalizing D f with
  | zero =>
    cases h with
    | here => exact mem_visited_self _ _
    | reference hname _ _ => cases hleaf.symm.trans hname
    | member hmembers hmember _ =>
      have hdepth := depth_lt_of_member hmembers hmember
      omega
  | succ steps ih =>
    cases h with
    | here => exact mem_visited_self _ _
    | reference hname _ _ => cases hleaf.symm.trans hname
    | @member _ _ m _ ms hmembers hmember hrest =>
      have hm : Throughout Alone m := hf.under hmembers hmember
      obtain ⟨D', hleaf', hreads, hle, hlen, hweight⟩ := hrest.behind hg hm hcomponents hD hlength
      have hdepth := depth_lt_of_member hmembers hmember
      have hmem := ih hreads hleaf' (throughout_resolve hm hcomponents _) (hle.trans hD)
        (hlen.trans hlength) (by omega)
      exact .tail _ (List.mem_flatMap.2 ⟨m, members_of_get? hmembers ▸ hmember, hmem⟩)

/-- **What is read of a fragment is merged** into what the fragment stands for, references apart:
`g` is `visited`. -/
theorem Reads.mem_visited (h : Reads ["allOf"] components f g) (hg : referencedName g = none)
    (hf : Throughout Alone f) (hcomponents : ThroughoutAll Alone components)
    (hsteps : f.depth + weight components ≤ steps) :
    g ∈ visited components steps (resolve components.length components f) := by
  obtain ⟨D, hleaf, hreads, hle, hlength, hweight⟩ :=
    (ReadsOnce.of_reads h).behind hg hf hcomponents (.refl components) (Nat.le_refl _)
  exact hreads.mem_visited hg hleaf (throughout_resolve hf hcomponents _) hcomponents hle hlength
    (hweight.trans hsteps)

end Parameter

end JsonShape
