import JsonShape.Proofs.Dict
import JsonShape.Proofs.Distinct
import JsonShape.Schema.Doc

/-!
# The components that documentation mentions

Documentation that is built from several mentions the components that one of them does: no name is
lost (`mem_names_combine`), and no producer comes in from elsewhere (`mem_found_combine`), though of
two producers under one name only one stays.
-/

namespace JsonShape

namespace Dict

variable {α : Type} {d more : Dict α} {name : String} {e : String × α}

/-- An entry that is added unless its name is there. -/
def absorbOne (d : Dict α) (e : String × α) : Dict α :=
  if d.contains e.1 then d else d ++ [e]

theorem absorb_eq (d more : Dict α) : d.absorb more = more.foldl absorbOne d := rfl

theorem addsNew_absorbOne : AddsNew (absorbOne (α := α)) fun e f => e.1 = f.1 where
  equivalence := ⟨fun _ => rfl, Eq.symm, Eq.trans⟩
  held := by
    rintro d f ⟨e, he, hname⟩
    exact if_pos (contains_iff.2 (List.mem_map.2 ⟨e, he, hname⟩))
  fresh := by
    intro d f h
    exact if_neg fun hc => h (List.mem_map.1 (contains_iff.1 hc))

theorem mem_names_absorb : name ∈ (d.absorb more).names ↔ name ∈ d.names ∨ name ∈ more.names := by
  have hname : ∀ e f : String × α, e.1 = f.1 → (e.1 = name ↔ f.1 = name) := fun e f h => by rw [h]
  simpa only [absorb_eq, names, List.mem_map] using
    addsNew_absorbOne.exists_mem_foldl hname d more

theorem mem_of_mem_absorb (h : e ∈ d.absorb more) : e ∈ d ∨ e ∈ more :=
  addsNew_absorbOne.mem_of_mem_foldl h

/-- Entries of new and distinct names are all added. -/
theorem absorb_of_nodup (h : (names (d ++ more)).Nodup) : d.absorb more = d ++ more :=
  addsNew_absorbOne.foldl_of_pairwise (List.pairwise_map.1 h)

/-- `absorb` adds no name twice. -/
theorem nodup_names_absorb (h : d.names.Nodup) (more : Dict α) : (d.absorb more).names.Nodup :=
  List.pairwise_map.2 (addsNew_absorbOne.pairwise_foldl (List.pairwise_map.1 h) more)

end Dict

namespace Doc

variable {α : Type} {docs : List (Doc α)} {f : List Json → Json} {name : String}

/-- What is mentioned is collected from everything that the parts mention, one after the other, the
first entry of each name. -/
theorem found_combine (docs : List (Doc α)) (f : List Json → Json) :
    (combine docs f).found = (docs.flatMap found).foldl Dict.absorbOne [] := by
  suffices ∀ acc : Dict α, docs.foldl (fun acc d => acc.absorb d.found) acc =
      (docs.flatMap found).foldl Dict.absorbOne acc from this []
  induction docs with
  | nil => exact fun _ => rfl
  | cons d rest ih =>
    intro acc
    rw [List.foldl_cons, ih, List.flatMap_cons, List.foldl_append]
    rfl

/-- What is built from `docs` mentions the names that one of them does. -/
theorem mem_names_combine :
    name ∈ (combine docs f).found.names ↔ ∃ d ∈ docs, name ∈ d.found.names := by
  rw [found_combine, ← Dict.absorb_eq, Dict.mem_names_absorb]
  simp only [Dict.names, List.map_flatMap, List.mem_flatMap, List.map_nil, List.not_mem_nil,
    false_or]

/-- What is built from several mentions producers that one of them does. -/
theorem mem_found_combine {e : String × α} (h : e ∈ (combine docs f).found) :
    ∃ d ∈ docs, e ∈ d.found := by
  rw [found_combine] at h
  exact List.mem_flatMap.1 ((Dict.mem_of_mem_absorb h).resolve_left List.not_mem_nil)

/-- References to components of distinct names mention these components, in their order. -/
theorem found_combine_reference {entries : Dict α} (h : entries.names.Nodup) :
    (combine (entries.map fun e => reference e.1 e.2) f).found = entries := by
  have hfound : (entries.map fun e => reference e.1 e.2).flatMap found = entries := by
    rw [List.flatMap_map]
    exact List.flatMap_singleton' entries
  rw [found_combine, hfound, ← Dict.absorb_eq]
  exact Dict.absorb_of_nodup h

/-- A description mentions nothing. -/
theorem found_ofMember (m : Member (Doc α)) : (ofMember m).found = m.value.found := by
  unfold ofMember
  split <;> rfl

/-- The fragment of a record has the declarations in force (`Member.distinct`), with their
descriptions. -/
theorem fragment_record (members : List (Member (Doc α))) : (record members).fragment =
    Fragment.object ((Member.distinct members).map fun m => (m.key, (ofMember m).fragment))
      (((Member.distinct members).filter Member.required).map Member.key) := by
  change Fragment.object (((Member.distinct members).map Member.key).zip
    (((Member.distinct members).map ofMember).map fragment)) _ = _
  rw [List.map_map, List.zip_map']
  rfl

theorem mem_names_record {members : List (Member (Doc α))} :
    name ∈ (record members).found.names ↔
      ∃ m ∈ Member.distinct members, name ∈ m.value.found.names := by
  simp [record, mem_names_combine, found_ofMember]

theorem mem_found_record {members : List (Member (Doc α))} {e : String × α}
    (h : e ∈ (record members).found) : ∃ m ∈ Member.distinct members, e ∈ m.value.found := by
  obtain ⟨d, hd, he⟩ := mem_found_combine h
  obtain ⟨m, hm, rfl⟩ := List.mem_map.1 hd
  exact ⟨m, hm, found_ofMember m ▸ he⟩

end Doc

end JsonShape
