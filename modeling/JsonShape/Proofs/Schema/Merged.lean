import JsonShape.Proofs.Schema.Formed
import JsonShape.Proofs.Schema.Read

/-!
# What a fragment stands for

`Parameter.shape` merges the fragments that are read into one. Properties are united; of the types,
and of any other keywords, the last one stands. So the merged fragment has properties if one of the
merged ones has, and otherwise the type of one of them, but it may be any of theirs
(`Parameter.Summary`).

This is so of fragments that have the form of documentation (`Fragment.Formed`): a reference stands
alone, and an intersection has neither a type nor properties of its own.
-/

namespace JsonShape

namespace Parameter

open Fragment

variable {components : Dict Json} {f : Json} {g : Gathered} {parts more : List Json} {steps : Nat}

/-! ## Gathering -/

/-- Of the keywords that are gathered, properties are united and a type replaces the type. -/
theorem Gathered.add_of_tidy (g : Gathered) (key : String) (arg : Json)
    (h : key = "properties" → ∃ ps, arg = .object ps) :
    (g.add key arg).properties =
        g.properties.extend (if key = "properties" then arg.members?.getD [] else []) ∧
      (g.add key arg).keywords.get? "type" =
        (if key = "type" then some arg else g.keywords.get? "type") ∧
      (g.add key arg).keywords.get? "properties" = g.keywords.get? "properties" := by
  unfold Gathered.add
  split
  · exact ⟨rfl, rfl, rfl⟩
  · exact ⟨rfl, rfl, rfl⟩
  · next hproperties _ =>
    have hkey : key ≠ "properties" := fun hkey => by
      obtain ⟨ps, hps⟩ := h hkey
      exact hproperties ps hkey hps
    rw [if_neg hkey]
    exact ⟨rfl, Dict.get?_insert .., (Dict.get?_insert ..).trans (if_neg hkey)⟩

/-- What a tidy fragment adds: its properties, and its type in place of an earlier one. -/
theorem Gathered.addMember_of_tidy (h : Tidy f) (g : Gathered) :
    (g.addMember f).properties = g.properties.extend (propertiesOf f) ∧
      (g.addMember f).keywords.get? "type" = (f.get? "type").or (g.keywords.get? "type") ∧
      (g.addMember f).keywords.get? "properties" = g.keywords.get? "properties" := by
  obtain ⟨⟨ks, rfl, hnodup⟩, hproperties⟩ := h
  induction ks generalizing g with
  | nil => exact ⟨rfl, rfl, rfl⟩
  | cons e rest ih =>
    obtain ⟨key, arg⟩ := e
    obtain ⟨hnew, hrest⟩ := List.nodup_cons.1 hnodup
    have hnone : ∀ k, key = k → (Json.object rest).get? k = none := fun k hk =>
      Dict.get?_eq_none_iff.2 (hk ▸ hnew)
    have hget : ∀ k, (Json.object ((key, arg) :: rest)).get? k =
        if key = k then some arg else (Json.object rest).get? k := fun k => rfl
    obtain ⟨hps, htype, hkeyword⟩ := g.add_of_tidy key arg fun hkey =>
      hproperties arg (by rw [hget, if_pos hkey])
    obtain ⟨hps', htype', hkeyword'⟩ := ih (g.add key arg) hrest fun a ha => by
      refine hproperties a ?_
      rw [hget]
      split
      · next hkey => cases (hnone _ hkey).symm.trans ha
      · exact ha
    have hadd : g.addMember (.object ((key, arg) :: rest)) =
        (g.add key arg).addMember (.object rest) := rfl
    rw [hadd, hps', htype', hkeyword', hps, htype, hkeyword]
    refine ⟨?_, ?_, rfl⟩
    · by_cases hkey : key = "properties"
      · rw [propertiesOf_of_none (hnone _ hkey), propertiesOf, hget, if_pos hkey, if_pos hkey]
        rfl
      · rw [propertiesOf, propertiesOf, hget, if_neg hkey, if_neg hkey]
        rfl
    · rw [hget]
      by_cases hkey : key = "type"
      · simp [hkey, hnone]
      · simp [hkey]

theorem Gathered.nodup_add (h : g.keywords.names.Nodup) (key : String) (arg : Json) :
    (g.add key arg).keywords.names.Nodup := by
  unfold Gathered.add
  split
  · exact h
  · exact h
  · exact Dict.nodup_names_insert h key arg

theorem Gathered.nodup_addMember (h : g.keywords.names.Nodup) (f : Json) :
    (g.addMember f).keywords.names.Nodup := by
  cases f with
  | object ks =>
    have hadd : g.addMember (.object ks) = ks.foldl (fun g e => g.add e.1 e.2) g := rfl
    rw [hadd]
    induction ks generalizing g with
    | nil => exact h
    | cons e rest ih => exact ih (nodup_add h e.1 e.2) rfl
  | _ => exact h

/-! ## Summaries -/

/-- What `g` has gathered from the fragments `parts`. -/
structure Gathering (g : Gathered) (parts : List Json) : Prop where
  nodup : g.keywords.names.Nodup
  keyword : g.keywords.get? "properties" = none
  properties_from : ∀ e ∈ g.properties, ∃ p ∈ parts, e ∈ propertiesOf p
  properties_of : ∀ p ∈ parts, propertiesOf p ≠ [] → g.properties ≠ []
  type_from : ∀ v, g.keywords.get? "type" = some v →
    g.properties ≠ [] ∨ ∃ p ∈ parts, p.get? "type" = some v
  type_of : ∀ p ∈ parts, ∀ v, p.get? "type" = some v → ∃ w, g.keywords.get? "type" = some w

/-- `f` has properties of the fragments `parts`, and some if one of them has; it has the type of one
of them if it has no properties, and some type if one of them has. -/
structure Summary (f : Json) (parts : List Json) : Prop where
  tidy : Tidy f
  properties_from : ∀ e ∈ propertiesOf f, ∃ p ∈ parts, e ∈ propertiesOf p
  properties_of : ∀ p ∈ parts, propertiesOf p ≠ [] → propertiesOf f ≠ []
  type_from : ∀ v, f.get? "type" = some v →
    propertiesOf f ≠ [] ∨ ∃ p ∈ parts, p.get? "type" = some v
  type_of : ∀ p ∈ parts, ∀ v, p.get? "type" = some v → ∃ w, f.get? "type" = some w

/-- A tidy fragment sums itself up. -/
theorem Summary.self (h : Tidy f) : Summary f [f] where
  tidy := h
  properties_from _ he := ⟨f, .head _, he⟩
  properties_of := List.forall_mem_singleton.2 id
  type_from _ hv := Or.inr ⟨f, .head _, hv⟩
  type_of := List.forall_mem_singleton.2 fun v hv => ⟨v, hv⟩

theorem Gathering.nil : Gathering ⟨[], [], []⟩ [] :=
  ⟨List.nodup_nil, rfl, nofun, nofun, nofun, nofun⟩

theorem extend_ne_nil {d more : Dict Json} (h : d ≠ [] ∨ more ≠ []) : d.extend more ≠ [] := by
  have hnames : ∀ {d : Dict Json}, d ≠ [] → ∃ k, k ∈ d.names := fun {d} hd => by
    obtain ⟨e, he⟩ := List.exists_mem_of_ne_nil d hd
    exact ⟨e.1, List.mem_map_of_mem he⟩
  rintro hnil
  have hnone : ∀ k, k ∉ (d.extend more).names := fun k hk => by
    rw [hnil] at hk
    cases hk
  rcases h with h | h
  · obtain ⟨k, hk⟩ := hnames h
    exact hnone k (Dict.mem_names_extend.2 (Or.inl hk))
  · obtain ⟨k, hk⟩ := hnames h
    exact hnone k (Dict.mem_names_extend.2 (Or.inr hk))

/-- **A step keeps what is gathered**: the next member `f` brings in what it sums up, the fragments
`more`. -/
theorem Gathering.addMember (h : Gathering g parts) (hf : Summary f more) :
    Gathering (g.addMember f) (parts ++ more) := by
  obtain ⟨hps, htype, hkeyword⟩ := g.addMember_of_tidy hf.tidy
  refine ⟨Gathered.nodup_addMember h.nodup f, hkeyword.trans h.keyword, fun e he => ?_,
    fun p hp hne => ?_, fun v hv => ?_, fun p hp v hv => ?_⟩
  · rw [hps] at he
    rcases Dict.mem_of_mem_extend he with he | he
    · obtain ⟨p, hp, hmem⟩ := h.properties_from e he
      exact ⟨p, List.mem_append_left _ hp, hmem⟩
    · obtain ⟨p, hp, hmem⟩ := hf.properties_from e he
      exact ⟨p, List.mem_append_right _ hp, hmem⟩
  · rw [hps]
    refine extend_ne_nil ((List.mem_append.1 hp).imp (fun hp => ?_) fun hp => ?_)
    · exact h.properties_of p hp hne
    · exact hf.properties_of p hp hne
  · rw [htype] at hv
    rw [hps]
    rcases Option.or_eq_some_iff.1 hv with hv | ⟨-, hv⟩
    · rcases hf.type_from v hv with hne | ⟨p, hp, hpv⟩
      · exact Or.inl (extend_ne_nil (Or.inr hne))
      · exact Or.inr ⟨p, List.mem_append_right _ hp, hpv⟩
    · rcases h.type_from v hv with hne | ⟨p, hp, hpv⟩
      · exact Or.inl (extend_ne_nil (Or.inl hne))
      · exact Or.inr ⟨p, List.mem_append_left _ hp, hpv⟩
  · rw [htype]
    cases hf' : f.get? "type" with
    | some w => exact ⟨w, rfl⟩
    | none =>
      rcases List.mem_append.1 hp with hp | hp
      · exact h.type_of p hp v hv
      · obtain ⟨w, hw⟩ := hf.type_of p hp v hv
        cases hf'.symm.trans hw

/-- The members of an intersection are gathered one by one. -/
theorem Gathering.foldl {α : Type} {flat : α → Json} {below : α → List Json} {ms : List α}
    (h : Gathering g parts) (hms : ∀ m ∈ ms, Summary (flat m) (below m)) :
    Gathering ((ms.map flat).foldl Gathered.addMember g) (parts ++ ms.flatMap below) := by
  induction ms generalizing g parts with
  | nil => exact (List.append_nil parts).symm ▸ h
  | cons m rest ih =>
    obtain ⟨hm, hrest⟩ := List.forall_mem_cons.1 hms
    rw [List.flatMap_cons, ← List.append_assoc]
    exact ih (h.addMember hm) hrest

/-- A keyword that does not stand beside the intersection is as it was gathered. -/
theorem Gathered.get?_addOuter (g : Gathered) {outer : Dict Json} {key : String}
    (h : outer.get? key = none) : (g.addOuter outer).keywords.get? key = g.keywords.get? key := by
  refine Dict.get?_extend_of_notMem (fun hmem => Dict.get?_eq_none_iff.1 h ?_) g.keywords
  exact List.map_subset Prod.fst (List.filter_subset_self _) hmem

/-- Keywords other than a type and properties change nothing of that. -/
theorem Gathering.addOuter (h : Gathering g parts) {outer : Dict Json}
    (htype : outer.get? "type" = none) (hproperties : outer.get? "properties" = none) :
    Gathering (g.addOuter outer) parts := by
  refine ⟨Dict.nodup_names_extend h.nodup _, (g.get?_addOuter hproperties).trans h.keyword,
    h.properties_from, h.properties_of, ?_, ?_⟩
  · rw [g.get?_addOuter htype]
    exact h.type_from
  · rw [g.get?_addOuter htype]
    exact h.type_of

/-- Properties and their type are written over what was gathered. -/
theorem Gathered.get?_toJson (g : Gathered) {key : String} (h : key ≠ "required") :
    g.toJson.get? key = if g.properties.isEmpty then g.keywords.get? key
      else if "type" = key then some (.string "object")
      else if "properties" = key then some (.object g.properties) else g.keywords.get? key := by
  have hkeywords : g.toJson.get? key = Dict.get? (if g.properties.isEmpty then g.keywords
      else (g.keywords.insert "properties" (.object g.properties)).insert "type"
        (.string "object")) key := by
    rw [Gathered.toJson]
    split
    · rfl
    · exact (Dict.get?_insert ..).trans (if_neg h.symm)
  rw [hkeywords]
  split
  · rfl
  · rw [Dict.get?_insert, Dict.get?_insert]

theorem Gathered.nodup_toJson (h : g.keywords.names.Nodup) :
    ∃ ks, g.toJson = .object ks ∧ (Dict.names ks).Nodup := by
  have hnodup : (Dict.names (if g.properties.isEmpty then g.keywords
      else (g.keywords.insert "properties" (.object g.properties)).insert "type"
        (.string "object"))).Nodup := by
    split
    · exact h
    · exact Dict.nodup_names_insert (Dict.nodup_names_insert h _ _) _ _
  refine ⟨_, rfl, ?_⟩
  split
  · exact hnodup
  · exact Dict.nodup_names_insert hnodup _ _

/-- What is gathered is summed up by one fragment. -/
theorem Gathering.toJson (h : Gathering g parts) : Summary g.toJson parts := by
  have hproperties : g.toJson.get? "properties" =
      if g.properties.isEmpty then none else some (.object g.properties) := by
    rw [g.get?_toJson (by decide), h.keyword]
    rfl
  have htype : g.toJson.get? "type" =
      if g.properties.isEmpty then g.keywords.get? "type" else some (.string "object") :=
    g.get?_toJson (by decide)
  have hpropertiesOf : propertiesOf g.toJson = g.properties := by
    rw [propertiesOf, hproperties]
    split
    · next hempty => exact (List.isEmpty_iff.1 hempty).symm
    · rfl
  have htidy : Tidy g.toJson := by
    refine ⟨g.nodup_toJson h.nodup, fun arg harg => ?_⟩
    rw [hproperties] at harg
    split at harg
    · cases harg
    · exact ⟨_, (Option.some.inj harg).symm⟩
  refine ⟨htidy, hpropertiesOf ▸ h.properties_from, hpropertiesOf ▸ h.properties_of,
    fun v hv => ?_, fun p hp v hv => ?_⟩
  · rw [hpropertiesOf]
    rw [htype] at hv
    split at hv
    · exact h.type_from v hv
    · next hne => exact Or.inl fun hnil => hne (List.isEmpty_iff.2 hnil)
  · rw [htype]
    split
    · exact h.type_of p hp v hv
    · exact ⟨_, rfl⟩

/-- A fragment without a type and properties adds nothing to what sums others up. -/
theorem Summary.cons {p : Json} (h : Summary f parts) (htype : p.get? "type" = none)
    (hproperties : p.get? "properties" = none) : Summary f (p :: parts) := by
  refine ⟨h.tidy, fun e he => ?_, ?_, fun v hv => ?_, ?_⟩
  · obtain ⟨q, hq, hmem⟩ := h.properties_from e he
    exact ⟨q, .tail _ hq, hmem⟩
  · refine List.forall_mem_cons.2 ⟨fun hne => ?_, h.properties_of⟩
    exact absurd (propertiesOf_of_none hproperties) hne
  · refine (h.type_from v hv).imp_right fun ⟨q, hq, hqv⟩ => ⟨q, .tail _ hq, hqv⟩
  · refine List.forall_mem_cons.2 ⟨fun v hv => ?_, h.type_of⟩
    cases htype.symm.trans hv

/-- **The merged fragment sums up what is merged**, as often as steps allow: `flatten` makes one
fragment of all that are `visited`. -/
theorem summary_flatten (hf : Throughout Formed f)
    (hcomponents : ThroughoutAll Formed components) (steps : Nat) :
    Summary (flatten components steps f) (visited components steps f) := by
  induction steps generalizing f with
  | zero => exact .self hf.here.tidy
  | succ steps ih =>
    rw [flatten, visited, members]
    cases hall : (f.get? "allOf").bind Json.items? with
    | none => exact .self hf.here.tidy
    | some ms =>
      have hms := bind_items?_eq_some.1 hall
      obtain ⟨htype, hproperties⟩ := hf.here.intersects _ hms
      have hbelow : ∀ m ∈ ms, Throughout Formed m := fun m hm => hf.under hms hm
      have hsum : ∀ m ∈ ms, Summary
          (flatten components steps (resolve components.length components m))
          (visited components steps (resolve components.length components m)) :=
        fun m hm => ih (throughout_resolve (hbelow m hm) hcomponents _)
      have houter : ∀ k, f.get? k = none → Dict.get? (f.members?.getD []) k = none :=
        fun k hk => by cases f <;> exact hk
      have hgathering := (Gathering.nil.foldl hsum).addOuter (houter _ htype) (houter _ hproperties)
      exact hgathering.toJson.cons htype hproperties

/-- The type of the whole: that of an object where there are properties, else the last one. -/
theorem Gathered.type_toJson (g : Gathered) {outer : Dict Json} (h : outer.get? "type" = none) :
    (g.addOuter outer).toJson.get? "type" =
      if g.properties.isEmpty then g.keywords.get? "type" else some (.string "object") := by
  rw [Gathered.get?_toJson _ (by decide), g.get?_addOuter h]
  rfl

/-- What ends in a record has the type of an object. -/
theorem Gathered.type_of_record {flat : Json → Json} {properties : Dict Json}
    {required : List String}
    (hflat : flat (Fragment.object properties required) = Fragment.object properties required)
    (g : Gathered) (init : List Json) :
    (((init ++ [Fragment.object properties required]).map flat).foldl Gathered.addMember
      g).keywords.get? "type" = some (.string "object") := by
  rw [List.map_append, List.foldl_append, List.map_singleton, hflat, List.foldl_cons,
    List.foldl_nil, (Gathered.addMember_of_tidy (formed_object properties required).tidy _).2.1,
    get?_object (by decide)]
  rfl

/-- **Where intersections end in records, a type that is merged is the type of the whole**, unless
that is the type of an object: no fragment that is `visited` has another one. -/
theorem type_flatten (hf : Throughout Formed f) (hsettled : Throughout Settled f)
    (hcomponents : ThroughoutAll Formed components) (hends : ThroughoutAll Settled components)
    {steps : Nat} {p v : Json} (hp : p ∈ visited components steps f)
    (hv : p.get? "type" = some v) :
    (flatten components steps f).get? "type" = some (.string "object") ∨
      (flatten components steps f).get? "type" = some v := by
  induction steps generalizing f with
  | zero => exact Or.inr (List.mem_singleton.1 hp ▸ hv)
  | succ steps ih =>
    rw [visited] at hp
    rw [flatten]
    cases hall : (f.get? "allOf").bind Json.items? with
    | none =>
      rw [members, hall] at hp
      exact Or.inr (List.mem_singleton.1 hp ▸ hv)
    | some ms =>
      have hms := bind_items?_eq_some.1 hall
      obtain ⟨htype, -⟩ := hf.here.intersects _ hms
      rw [members_of_get? hms] at hp
      have htype' : Dict.get? (f.members?.getD []) "type" = none := by cases f <;> exact htype
      dsimp only
      rw [Gathered.type_toJson _ htype']
      split
      · rcases hsettled.here ms hms with ⟨m, rfl⟩ | ⟨init, properties, required, rfl⟩
        · -- a fragment that is wrapped keeps its type
          have hm := throughout_resolve (hf.under hms (.head _)) hcomponents components.length
          have hm' := throughout_resolve (hsettled.under hms (.head _)) hends components.length
          rw [List.map_singleton, List.foldl_cons, List.foldl_nil,
            (Gathered.addMember_of_tidy (summary_flatten hm hcomponents steps).tidy _).2.1,
            Dict.get?_nil, Option.or_none]
          rcases List.mem_cons.1 hp with rfl | hp
          · cases htype.symm.trans hv
          · rw [List.flatMap_singleton] at hp
            exact ih hm hm' hp
        · exact Or.inl (Gathered.type_of_record (flatten_resolve_object _ _ _) _ init)
      · exact Or.inl rfl

/-! ## What is read -/

section shape

variable {h : Json} {v : Json}

theorem summary_shape (hf : Throughout Formed f) (hcomponents : ThroughoutAll Formed components) :
    Summary (shape components f) (visited components (flattenSteps components f)
      (resolve components.length components f)) :=
  summary_flatten (throughout_resolve hf hcomponents _) hcomponents _

/-- What is read of `f` and has a keyword other than a reference is merged, so it is among the
fragments `visited`. -/
theorem mem_visited_shape (hf : Throughout Formed f) (hcomponents : ThroughoutAll Formed components)
    (hread : Reads ["allOf"] components f h) (hleaf : referencedName h = none) :
    h ∈ visited components (flattenSteps components f)
      (resolve components.length components f) :=
  hread.mem_visited hleaf (hf.mono fun _ hg => hg.alone)
    (hcomponents.mono fun _ hg => hg.alone) (Nat.le_succ _)

/-- What is read of a fragment has its form. -/
theorem Reads.throughout {P : Json → Prop} {keywords : List String}
    (hkeywords : ∀ key ∈ keywords, key = "oneOf" ∨ key = "allOf")
    (hcomponents : ThroughoutAll P components)
    (hread : Reads keywords components f h) (hf : Throughout P f) : Throughout P h := by
  induction hread with
  | here f => exact hf
  | reference _ htarget _ ih => exact ih (hcomponents _ _ htarget)
  | member hkey hmembers hmember _ ih =>
    refine ih (hf.under hmembers ?_)
    rcases hkeywords _ hkey with rfl | rfl <;> exact hmember

/-- The properties that a fragment stands for are those of fragments that are read of it. -/
theorem exists_reads_of_mem_properties (hf : Throughout Formed f)
    (hcomponents : ThroughoutAll Formed components)
    {e : String × Json} (he : e ∈ propertiesOf (shape components f)) :
    ∃ g, Reads ["allOf"] components f g ∧ e ∈ propertiesOf g := by
  obtain ⟨g, hg, hmem⟩ := (summary_shape hf hcomponents).properties_from e he
  exact ⟨g, reads_resolve (.refl _) (reads_of_mem_visited hg), hmem⟩

/-- **A fragment stands for an object if one with properties is read of it**, through references and
intersections. -/
theorem properties_shape_ne_nil (hf : Throughout Formed f)
    (hcomponents : ThroughoutAll Formed components)
    (hread : Reads ["allOf"] components f h) (hh : Alone h) (hne : propertiesOf h ≠ []) :
    propertiesOf (shape components f) ≠ [] := by
  have hleaf : referencedName h = none := by
    cases hproperties : h.get? "properties" with
    | none => exact absurd (propertiesOf_of_none hproperties) hne
    | some arg => exact referencedName_of_alone hh hproperties (by decide)
  exact (summary_shape hf hcomponents).properties_of h
    (mem_visited_shape hf hcomponents hread hleaf) hne

/-- **A fragment of which types are read stands for one of them**, or for an object: its `shape` has
properties or one of those types. -/
theorem exists_type_shape (hf : Throughout Formed f) (hcomponents : ThroughoutAll Formed components)
    (hread : Reads ["allOf"] components f h) (hh : Alone h) (hv : h.get? "type" = some v) :
    propertiesOf (shape components f) ≠ [] ∨ ∃ g w, Reads ["allOf"] components f g ∧
      g.get? "type" = some w ∧ (shape components f).get? "type" = some w := by
  have hsum := summary_shape hf hcomponents
  have hmem := mem_visited_shape hf hcomponents hread
    (referencedName_of_alone hh hv (by decide))
  obtain ⟨w, hw⟩ := hsum.type_of h hmem v hv
  refine (hsum.type_from w hw).imp_right fun ⟨g, hg, hgw⟩ => ⟨g, w, ?_, hgw, hw⟩
  exact reads_resolve (.refl _) (reads_of_mem_visited hg)

/-- Where intersections end in records, a fragment of which a type is read has this type, or that of
an object. -/
theorem type_shape (hf : Throughout Formed f) (hsettled : Throughout Settled f)
    (hcomponents : ThroughoutAll Formed components) (hends : ThroughoutAll Settled components)
    (hread : Reads ["allOf"] components f h) (hh : Alone h) (hv : h.get? "type" = some v) :
    (shape components f).get? "type" = some (.string "object") ∨
      (shape components f).get? "type" = some v := by
  have hmem := mem_visited_shape hf hcomponents hread (referencedName_of_alone hh hv (by decide))
  exact type_flatten (throughout_resolve hf hcomponents _)
    (throughout_resolve hsettled hends _) hcomponents hends hmem hv

end shape

end Parameter

end JsonShape
