import JsonShape.Proofs.Input.Call
import JsonShape.Proofs.Input.Limit
import JsonShape.Proofs.Output.Agreement
import JsonShape.Proofs.Output.Mirror
import JsonShape.Proofs.Output.Record

/-!
# Written values parse back

What an output writes with checks is accepted by its mirror and not changed, the order of keys
included (`call_of_report_mirror`). Whatever the extractors and functions make of the value, what
they make is checked where it is written, so the statement is about the written value only.

* `BackObject`: an object is read back from every object that agrees with it on the declared keys.
  An inheritance needs this much, since each side reads the members of both.
* `back_with`: the induction on the output.
-/

namespace JsonShape

namespace Output

variable [Regex.Engine] {checked : Reporter} {deferred : String → Json → Outcome} {o : Output}
  {v w : Json}

/-! ## Records -/

/-- What `i` reads back: the object `w`, with some of `keys`, from every object that agrees with it
on these. -/
def BackObject (deferred : String → Json → Outcome) (i : Input) (keys : List String) (w : Json) :
    Prop :=
  ∃ ws : Dict Json, w = .object ws ∧ ws.names.Nodup ∧ ws.names ⊆ keys ∧
    ∀ more : Dict Json, (∀ key ∈ keys, more.get? key = ws.get? key) →
      Input.callWith deferred i (.object more) = some (.ok w)

theorem BackObject.callWith {i : Input} {keys : List String} (h : BackObject deferred i keys w) :
    Input.callWith deferred i w = some (.ok w) := by
  obtain ⟨ws, rfl, -, -, hback⟩ := h
  exact hback ws fun _ _ => rfl

/-- Objects are read back if their members are. -/
theorem back_object {properties : List (Property Output)}
    (ih : ∀ p ∈ properties, ∀ view v w, reportWith checked p.value view v = some (.ok w) →
      Input.callWith deferred p.value.mirror w = some (.ok w)) {view : Option String}
    (h : reportWith checked (.object properties) view v = some (.ok w)) :
    BackObject deferred (mirror (.object properties)) (properties.map Property.key) w := by
  obtain ⟨ws, rfl, hsub, hmember⟩ := reportWith_object_eq_ok.1 h
  have hdistinct : Member.distinct (properties.map mirrorProperty) =
      (inForce properties).map mirrorProperty :=
    distinct_declared (fun p => p.value.mirror) properties
  have hkeys : (inForce properties).map Property.key ⊆ properties.map Property.key := by
    refine List.map_subset _ fun p hp => mem_of_mem_inForce hp
  refine ⟨ws, rfl, hsub.nodup (nodup_keys_inForce properties),
    fun key hkey => hkeys (hsub.subset hkey), fun more hmore => ?_⟩
  rw [mirror_object]
  refine Input.callWith_object_eq_ok.2 ⟨more, ws, rfl, rfl, ?_, ?_⟩
  · rw [hdistinct, Member.keys, List.map_map]
    exact hsub
  · rw [hdistinct]
    refine List.forall_mem_map.2 fun p hp => Input.callMember_eq_ok.2 ?_
    have hagree : more.get? (mirrorProperty p).key = ws.get? p.key :=
      hmore p.key (hkeys (List.mem_map_of_mem hp))
    rw [hagree]
    -- nothing is written for a property only if it is optional
    rcases reportProperty_eq_ok.1 (hmember p hp) with ⟨-, hr, hnone⟩ | ⟨-, y, hy, hsome⟩
    · exact Or.inl ⟨hnone, hr, hnone⟩
    · exact Or.inr ⟨y, y, hsome, ih p (mem_of_mem_inForce hp) none _ y hy, hsome⟩

/-- Both sides of an inheritance read their members back from all of them. -/
theorem back_merge {i j : Input} {keys keys' : List String} {w' : Json}
    (h : BackObject deferred i keys w) (h' : BackObject deferred j keys' w')
    (hdisjoint : (keys ++ keys').Nodup) :
    BackObject deferred (.merge i j) (keys ++ keys') (w.merge w') := by
  obtain ⟨ws, rfl, hnodup, hkeys, hback⟩ := h
  obtain ⟨ws', rfl, hnodup', hkeys', hback'⟩ := h'
  have hnot : keys.Disjoint keys' := List.disjoint_of_nodup_append hdisjoint
  have hnames : (Dict.names (ws ++ ws')).Nodup := by
    rw [Dict.names, List.map_append]
    exact hnodup.append hnodup' fun key h h' => hnot (hkeys h) (hkeys' h')
  have hmerge : (Json.object ws).merge (.object ws') = .object (ws ++ ws') :=
    congrArg Json.object (Dict.extend_of_nodup hnames)
  refine ⟨ws ++ ws', hmerge, hnames, ?_, fun more hmore => ?_⟩
  · rw [Dict.names, List.map_append]
    exact List.append_subset.2 ⟨fun key h => List.mem_append_left _ (hkeys h),
      fun key h => List.mem_append_right _ (hkeys' h)⟩
  · have hparent : ∀ key ∈ keys, more.get? key = ws.get? key := by
      intro key hkey
      have hnone : ws'.get? key = none :=
        Dict.get?_eq_none_iff.2 fun h => hnot hkey (hkeys' h)
      rw [hmore key (List.mem_append_left _ hkey), Dict.get?_append, hnone, Option.or_none]
    have hchild : ∀ key ∈ keys', more.get? key = ws'.get? key := by
      intro key hkey
      have hnone : ws.get? key = none :=
        Dict.get?_eq_none_iff.2 fun h => hnot (hkeys h) hkey
      rw [hmore key (List.mem_append_right _ hkey), Dict.get?_append, hnone, Option.none_or]
    exact Input.callWith_merge_eq_ok.2 ⟨_, _, hback more hparent, hback' more hchild, rfl⟩

/-! ## Trees -/

/-- **What is written is read back by the mirror**, whatever `deferred` and `checked` say of
definitions. An object is read back from every object that agrees with it on the keys. -/
theorem back_with (h : o.Mirrored) {view : Option String}
    (hw : reportWith checked o view v = some (.ok w)) :
    Input.callWith deferred o.mirror w = some (.ok w) ∧
      ∀ keys, o.keys? = some keys → BackObject deferred o.mirror keys w := by
  induction o generalizing view v w with
  | text _ | number | integer | boolean | null =>
    obtain rfl : v = w := Option.some.inj (Agrees.check _ _ v w hw)
    exact ⟨hw, fun _ hkeys => by cases hkeys⟩
  | object properties ih =>
    have hobject := back_object
      (fun p hp view v w hw => (ih p hp (mirroredProperties_iff.1 h p hp) hw).1) hw
    refine ⟨hobject.callWith, fun keys hkeys => ?_⟩
    exact Option.some.inj hkeys ▸ hobject
  | merge parent child ihp ihc =>
    obtain ⟨hparent, hchild, keys, hkeys, hnodup⟩ := h
    have hsides := hkeys
    simp only [keys?, Option.bind_eq_bind, Option.bind_eq_some_iff, Option.some.injEq] at hsides
    obtain ⟨inherited, hinherited, own, hown, rfl⟩ := hsides
    obtain ⟨a, b, ha, hb, rfl⟩ := reportWith_merge_eq_ok.1 hw
    have hmerge := back_merge ((ihp hparent ha).2 _ hinherited) ((ihc hchild hb).2 _ hown) hnodup
    refine ⟨hmerge.callWith, fun keys hkeys' => ?_⟩
    exact Option.some.inj (hkeys.symm.trans hkeys') ▸ hmerge
  | list item ih =>
    refine ⟨?_, fun _ hkeys => by cases hkeys⟩
    obtain ⟨xs, ys, rfl, rfl, hys⟩ := reportWith_list_eq_ok.1 hw
    refine Input.callWith_list_eq_ok.2 ⟨ys, ys, rfl, rfl, List.forall₂_same.2 fun y hy => ?_⟩
    obtain ⟨x, -, hx⟩ := exists_of_forall₂_of_mem hys.flip hy
    exact (ih h hx).1
  | optional inner ih =>
    refine ⟨?_, fun _ hkeys => by cases hkeys⟩
    have hback : w = .null ∨ Input.callWith deferred inner.mirror w = some (.ok w) :=
      (reportWith_optional_eq_ok.1 hw).imp And.right fun hw => (ih h hw.2).1
    -- null is read back by the optional shape, even where the inner one wrote it
    cases w with
    | null => rfl
    | _ => exact hback.resolve_left fun hnull => by cases hnull
  | described _ _ ih | referenced _ _ ih =>
    rw [reportWith] at hw
    exact ih h hw
  | viaMap inner f ih =>
    rw [reportWith] at hw
    exact ih h hw
  | viewed _ _ _ | cond _ _ _ | chain _ _ | defer _ _ => exact h.elim

/-- **Written values parse back**: what `o`, a mirrored output, writes with checks, `o.mirror`
accepts as it is. -/
theorem call_of_report_mirror (idefs : Dict Input) (odefs : Dict Output) (h : o.Mirrored)
    (view : Option String) (hw : report odefs o view v = some (.ok w)) :
    Input.call idefs o.mirror w = some (.ok w) := by
  rw [Input.call, Input.callAt_eq]
  exact (back_with h hw).1

end Output

end JsonShape
