import JsonShape.Proofs.Input.Components
import JsonShape.Proofs.Schema.Reachable

/-!
# The components that parameters are read against

The parameters of an input are read off its fragment, against the components that can be reached
from it (`Input.reached`). The search for them is done before the steps run out: documentation
mentions each component once, so there are no more mentions than there are names to the square.

* `parameters_eq`: the parameters of an input are those of its fragment and these components.
* `reached_closed`: each component is there as a producer that is mentioned documents it, and with
  it all that this producer mentions.
-/

namespace JsonShape

/-! ## Each component is mentioned once -/

theorem Doc.nodup_names_combine {α : Type} (docs : List (Doc α)) (f : List Json → Json) :
    (combine docs f).found.names.Nodup := by
  rw [found_combine]
  exact Dict.nodup_names_absorb (d := []) List.nodup_nil _

namespace Input

variable [Regex.Engine] {defs : Dict Input} {root i : Input} {limit : Nat}

theorem nodup_found_docWith {deferred : String → Doc Input}
    (hdeferred : ∀ name, (deferred name).found.names.Nodup) (i : Input) :
    (docWith deferred i).found.names.Nodup := by
  induction i with
  | text format => cases format <;> exact List.nodup_nil
  | number | integer | boolean | null | any => exact List.nodup_nil
  | object members =>
    rw [docWith_object]
    exact Doc.nodup_names_combine _ _
  | merge a b | either a b => exact Doc.nodup_names_combine _ _
  | list a ih | optional a ih | enum a _ ih | pattern a _ ih | inRange a _ ih | multipleOf a _ ih
  | mapped a _ ih | described a _ ih => exact ih
  | referenced a name => exact List.nodup_singleton name
  | defer name => exact hdeferred name

/-- Documentation has no name twice in `found`. -/
theorem nodup_found_docAt (limit : Nat) (i : Input) : (docAt defs limit i).found.names.Nodup :=
  docAt_of_docWith (Q := fun d => d.found.names.Nodup) List.nodup_nil
    (fun _ => nodup_found_docWith) limit i

/-! ## The components -/

/-- The components that can be reached from `i`, with the fragments that document them. -/
def reached (defs : Dict Input) (i : Input) : Dict Json :=
  let bound := componentBound defs [doc defs i] + 1
  let docs : Id (Dict (Doc Input)) :=
    Components.reachable (fun i => pure (doc defs i)) (bound * bound) (doc defs i).found
  docs.run.mapValues Doc.fragment

theorem parameters_eq (defs : Dict Input) (i : Input) (location : Location) :
    parameters defs (doc defs i) location =
      Parameter.project (reached defs i) location (doc defs i).fragment := rfl

/-- No more components are mentioned at once than can be mentioned at all. -/
theorem length_found_le {p : Input}
    (h : ∀ e ∈ (doc defs p).found, Mentioned defs root e.1 e.2) :
    (doc defs p).found.length ≤ (mentionable defs (doc defs root)).length := by
  have hsub : (doc defs p).found.names ⊆ mentionable defs (doc defs root) := by
    intro n hn
    obtain ⟨e, he, rfl⟩ := List.mem_map.1 hn
    exact (h e he).mem
  have hle := ((nodup_found_docAt defs.length p).subperm hsub).length_le
  rwa [Dict.names, List.length_map] at hle

/-- **The components that can be reached from an input are all there**: each is documented as a
producer of the class `C` documents it, where `C` has the producers that `root` mentions and those
that they mention; what that producer mentions is there, and so is what `root` itself mentions. -/
theorem reached_closed (defs : Dict Input) (root : Input) {C : String → Input → Prop}
    (hC : ∀ name p, C name p → ∀ e ∈ (doc defs p).found, C e.1 e.2)
    (hroot : ∀ e ∈ (doc defs root).found, C e.1 e.2) :
    Components.Closed (doc defs) C (reached defs root) ∧
      ∀ n ∈ (doc defs root).found.names, n ∈ (reached defs root).names := by
  let names := mentionable defs (doc defs root)
  have hnames : names.length ≤ componentBound defs [doc defs root] := length_mentionable_le _
  have hsteps : (doc defs root).found.length + names.length * names.length ≤
      (componentBound defs [doc defs root] + 1) * (componentBound defs [doc defs root] + 1) :=
    calc (doc defs root).found.length + names.length * names.length
      _ ≤ names.length + names.length * names.length :=
        Nat.add_le_add_right (length_found_le mentioned_of_found_root) _
      _ = names.length * (names.length + 1) := by rw [Nat.mul_succ, Nat.add_comm]
      _ ≤ _ := Nat.mul_le_mul (Nat.le_succ_of_le hnames) (Nat.succ_le_succ hnames)
  have hfound : ∀ name p, Mentioned defs root name p ∧ C name p →
      ∀ e ∈ (doc defs p).found, Mentioned defs root e.1 e.2 ∧ C e.1 e.2 :=
    fun name p h e he => ⟨h.1.of_found e he, hC name p h.2 e he⟩
  obtain ⟨docs, hdocs, hclosed, hmem⟩ := Components.reachable_closed hfound
    (fun _ _ h => h.1.mem) (fun name p h => length_found_le h.1.of_found)
    (fun e he => ⟨mentioned_of_found_root e he, hroot e he⟩) hsteps
  have hreached : reached defs root = docs.mapValues Doc.fragment :=
    congrArg (Dict.mapValues Doc.fragment) hdocs
  rw [hreached, Dict.names_mapValues]
  refine ⟨fun name f hf => ?_, hmem⟩
  obtain ⟨p, hp, hfp, hmentions⟩ := hclosed name f hf
  exact ⟨p, hp.2, hfp, hmentions⟩

end Input

end JsonShape
