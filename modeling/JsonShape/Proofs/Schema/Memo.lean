import JsonShape.Proofs.Schema.Related
import JsonShape.Schema.Memo

/-!
# Producers that remember answer the same

Producers are kept in a store and remember what they have produced. Whatever is loaded and forced
(`Memo.Run`), each producer is run at most once and keeps what it has produced (`Run.extends`), and
what it has produced is what `produce` says of its source (`Memo.Sound`). So components and
parameters are answered as if there were no store: `load_collect` and `load_parameters`.

* `Store.Makes` relates producers to their sources.
* `Memo.Answers` says what a computation answers from a store, and `Answers.bind` that answers are
  put together as computations are.
-/

namespace JsonShape

namespace Memo

variable {α β γ : Type} {produce : α → Doc α} {s s' s'' : Store α} {a : α} {id : Nat} {d : Doc Nat}

namespace Store

/-- The source of a producer. -/
def source? (s : Store α) (id : Nat) : Option α := s.cells[id]?.map Cell.source

/-- What a producer has produced. -/
def produced? (s : Store α) (id : Nat) : Option (Doc Nat) := s.cells[id]?.bind Cell.produced

/-- `id` is a producer of the source `a`. -/
def Makes (s : Store α) (id : Nat) (a : α) : Prop := s.source? id = some a

theorem produced?_empty (id : Nat) : (empty : Store α).produced? id = none := by
  simp [produced?, empty]

end Store

/-! ## What is added to a store -/

/-- `s'` is `s` with more producers, some of which have been run: those that the log of `s'` adds to
that of `s`, each once. -/
structure Extends (s s' : Store α) : Prop where
  source : ∀ id a, s.source? id = some a → s'.source? id = some a
  produced : ∀ id d, s.produced? id = some d → s'.produced? id = some d
  log : ∃ ids, s'.log = ids ++ s.log ∧ ids.Nodup ∧
    ∀ id, id ∈ ids ↔ s.produced? id = none ∧ (s'.produced? id).isSome

namespace Extends

theorem refl (s : Store α) : Extends s s where
  source _ _ h := h
  produced _ _ h := h
  log := ⟨[], rfl, .nil, fun id => by cases s.produced? id <;> simp⟩

/-- A producer that has been run is not run again, so the logs of `h` and `h'` have none in
common. -/
theorem trans (h : Extends s s') (h' : Extends s' s'') : Extends s s'' where
  source id a ha := h'.source id a (h.source id a ha)
  produced id d hd := h'.produced id d (h.produced id d hd)
  log := by
    obtain ⟨ids, hlog, hnodup, hmem⟩ := h.log
    obtain ⟨ids', hlog', hnodup', hmem'⟩ := h'.log
    refine ⟨ids' ++ ids, by rw [hlog', hlog, List.append_assoc], ?_, fun id => ?_⟩
    · refine hnodup'.append hnodup fun id hid' hid => ?_
      rw [hmem] at hid
      rw [hmem'] at hid'
      simp [hid'.1] at hid
    · rw [List.mem_append, hmem, hmem']
      cases hs : s.produced? id with
      | some d => simp [h.produced id d hs]
      | none =>
        cases hs' : s'.produced? id with
        | some d => simp [h'.produced id d hs']
        | none => simp

theorem makes (h : Extends s s') (id : Nat) (a : α) (ha : s.Makes id a) : s'.Makes id a :=
  h.source id a ha

end Extends

/-- What a producer has produced is what `produce` says of its source, with producers of what that
finds. -/
def Sound (produce : α → Doc α) (s : Store α) : Prop :=
  ∀ id d, s.produced? id = some d → ∃ a, s.Makes id a ∧ Doc.Related s.Makes d (produce a)

theorem sound_empty (produce : α → Doc α) : Sound produce .empty := by
  intro id d hd
  rw [Store.produced?_empty] at hd
  cases hd

/-! ## Making producers -/

theorem source?_make (a : α) (s : Store α) (id : Nat) :
    (make a s).2.source? id = if id = s.cells.size then some a else s.source? id := by
  rw [Store.source?, make, Array.getElem?_push]
  split <;> rfl

theorem produced?_make (a : α) (s : Store α) (id : Nat) :
    (make a s).2.produced? id = s.produced? id := by
  rw [Store.produced?, make, Array.getElem?_push, Store.produced?]
  split
  · next h => subst h; simp
  · rfl

/-- Producers that are made have not been run. -/
theorem extends_of_made (hsource : ∀ id a, s.source? id = some a → s'.source? id = some a)
    (hproduced : s'.produced? = s.produced?) (hlog : s'.log = s.log) : Extends s s' where
  source := hsource
  produced id d h := by rwa [hproduced]
  log := ⟨[], hlog, .nil, fun id => by rw [hproduced]; cases s.produced? id <;> simp⟩

/-- The producers are made in the order of `sources`, under its names. -/
theorem makeAll_spec (sources : Dict α) (s : Store α) :
    Extends s (makeAll sources s).2 ∧ (makeAll sources s).2.produced? = s.produced? ∧
      Dict.Related (makeAll sources s).2.Makes (makeAll sources s).1 sources := by
  induction sources generalizing s with
  | nil => exact ⟨.refl s, rfl, .nil⟩
  | cons e rest ih =>
    obtain ⟨name, a⟩ := e
    obtain ⟨hextends, hproduced, hrelated⟩ := ih (make a s).2
    have hmade : Extends s (make a s).2 := by
      refine extends_of_made (fun id b h => ?_) (funext (produced?_make a s)) rfl
      rw [source?_make, if_neg, h]
      rintro rfl
      simp [Store.source?] at h
    have hid : (make a s).2.Makes (make a s).1 a := by
      rw [Store.Makes, source?_make]
      exact if_pos rfl
    exact ⟨hmade.trans hextends, hproduced.trans (funext (produced?_make a s)),
      .cons ⟨rfl, hextends.makes _ _ hid⟩ hrelated⟩

theorem extends_load (doc : Doc α) (s : Store α) : Extends s (load doc s).2 :=
  (makeAll_spec doc.found s).1

theorem produced?_load (doc : Doc α) (s : Store α) : (load doc s).2.produced? = s.produced? :=
  (makeAll_spec doc.found s).2.1

theorem related_load (doc : Doc α) (s : Store α) :
    Doc.Related (load doc s).2.Makes (load doc s).1 doc :=
  ⟨rfl, (makeAll_spec doc.found s).2.2⟩

/-! ## Running producers -/

theorem source?_remember (s : Store α) (id : Nat) (d : Doc Nat) :
    (s.remember id d).source? = s.source? := by
  funext id'
  rw [Store.source?, Store.remember, Array.getElem?_modify, Store.source?]
  split
  · rw [Option.map_map]
    rfl
  · rfl

theorem makes_remember (s : Store α) (id : Nat) (d : Doc Nat) :
    (s.remember id d).Makes = s.Makes := by
  funext id' a
  rw [Store.Makes, source?_remember, Store.Makes]

theorem produced?_remember (h : s.Makes id a) (d : Doc Nat) (id' : Nat) :
    (s.remember id d).produced? id' = if id' = id then some d else s.produced? id' := by
  obtain ⟨c, hc, -⟩ := Option.map_eq_some_iff.1 h
  rw [Store.produced?, Store.remember, Array.getElem?_modify]
  by_cases hid : id' = id
  · subst hid
    rw [if_pos rfl, if_pos rfl, hc]
    rfl
  · rw [if_neg hid, if_neg (Ne.symm hid), Store.produced?]

theorem force_eq (id : Nat) (s : Store α) :
    force produce id s = match s.cells[id]? with
      | some ⟨_, some d⟩ => (d, s)
      | some ⟨a, none⟩ =>
        let made := load (produce a) s
        (made.1, made.2.remember id made.1)
      | none => (.plain .null, s) := by
  show (match s.cells[id]? with | some ⟨_, some d⟩ => _ | some ⟨a, none⟩ => _ | none => _ :
    MemoM α (Doc Nat)) s = _
  rcases s.cells[id]? with _ | ⟨a, _ | d⟩ <;> rfl

/-- A producer that has been run is not run again. -/
theorem force_of_produced (h : s.produced? id = some d) : force produce id s = (d, s) := by
  obtain ⟨⟨source, produced⟩, hc, rfl⟩ := Option.bind_eq_some_iff.1 h
  rw [force_eq, hc]

theorem force_of_makes (h : s.Makes id a) (hid : s.produced? id = none) :
    force produce id s =
      ((load (produce a) s).1, (load (produce a) s).2.remember id (load (produce a) s).1) := by
  obtain ⟨⟨source, produced⟩, hc, rfl⟩ := Option.map_eq_some_iff.1 h
  obtain rfl : produced = none := by simpa [Store.produced?, hc] using hid
  rw [force_eq, hc]

theorem force_of_unknown (h : s.source? id = none) : force produce id s = (.plain .null, s) := by
  rw [force_eq, Option.map_eq_none_iff.1 h]

/-- A producer that is run is the one that the log adds, and `hid` says that it has not been run
before. -/
theorem extends_remember (h : s.Makes id a) (hid : s.produced? id = none) (d : Doc Nat) :
    Extends s (s.remember id d) where
  source id' b hb := by rwa [source?_remember]
  produced id' e he := by
    rw [produced?_remember h, if_neg, he]
    rintro rfl
    simp [hid] at he
  log := by
    refine ⟨[id], rfl, List.nodup_singleton id, fun id' => ?_⟩
    rw [List.mem_singleton, produced?_remember h]
    split
    · next heq => simp [heq, hid]
    · next hne => cases s.produced? id' <;> simp [hne]

theorem extends_force (produce : α → Doc α) (id : Nat) (s : Store α) :
    Extends s (force produce id s).2 := by
  cases hid : s.produced? id with
  | some d =>
    rw [force_of_produced hid]
    exact .refl s
  | none =>
    cases ha : s.source? id with
    | none =>
      rw [force_of_unknown ha]
      exact .refl s
    | some a =>
      rw [force_of_makes ha hid]
      have hload := extends_load (produce a) s
      refine hload.trans (extends_remember (hload.makes id a ha) ?_ _)
      rwa [produced?_load]

/-! ## Runs -/

/-- Documentation is loaded and producers are forced, in any order, from one store to another. -/
inductive Run (produce : α → Doc α) : Store α → Store α → Prop
  | done (s : Store α) : Run produce s s
  | load {s s' : Store α} (doc : Doc α) (rest : Run produce (load doc s).2 s') : Run produce s s'
  | force {s s' : Store α} (id : Nat) (rest : Run produce (force produce id s).2 s') :
    Run produce s s'

theorem Run.trans (h : Run produce s s') (h' : Run produce s' s'') : Run produce s s'' := by
  induction h with
  | done => exact h'
  | load doc _ ih => exact .load doc (ih h')
  | force id _ ih => exact .force id (ih h')

/-- **Every producer is run at most once.** What a run from `s` to `s'` adds to the log are the
producers that had produced nothing in `s` and have in `s'`, each once, and what a producer has
produced stays. -/
theorem Run.extends (h : Run produce s s') : Extends s s' := by
  induction h with
  | done => exact .refl _
  | load doc _ ih => exact (extends_load doc _).trans ih
  | force id _ ih => exact (extends_force produce id _).trans ih

theorem Sound.of_extends (h : Sound produce s) (hextends : Extends s s')
    (hnew : ∀ id d, s'.produced? id = some d → s.produced? id = some d ∨
      ∃ a, s'.Makes id a ∧ Doc.Related s'.Makes d (produce a)) : Sound produce s' := by
  intro id d hd
  rcases hnew id d hd with hold | hnew
  · obtain ⟨a, ha, hrelated⟩ := h id d hold
    exact ⟨a, hextends.makes id a ha, hrelated.imp hextends.makes⟩
  · exact hnew

theorem Sound.load (h : Sound produce s) (doc : Doc α) : Sound produce (load doc s).2 :=
  h.of_extends (extends_load doc s) fun id d hd => Or.inl (by rwa [produced?_load] at hd)

theorem Sound.force (h : Sound produce s) (id : Nat) : Sound produce (force produce id s).2 := by
  refine h.of_extends (extends_force produce id s) fun id' d hd => ?_
  cases hid : s.produced? id with
  | some e =>
    rw [force_of_produced hid] at hd
    exact Or.inl hd
  | none =>
    cases ha : s.source? id with
    | none =>
      rw [force_of_unknown ha] at hd
      exact Or.inl hd
    | some a =>
      rw [force_of_makes ha hid] at hd ⊢
      have hmakes := (extends_load (produce a) s).makes id a ha
      rw [produced?_remember hmakes, produced?_load] at hd
      split at hd
      · next heq =>
        subst heq
        cases hd
        rw [makes_remember]
        exact Or.inr ⟨a, hmakes, related_load (produce a) s⟩
      · exact Or.inl hd

theorem Run.sound (h : Run produce s s') (hs : Sound produce s) : Sound produce s' := by
  induction h with
  | done => exact hs
  | load doc _ ih => exact ih (hs.load doc)
  | force id _ ih => exact ih (hs.force id)

/-! ## What computations answer -/

/-- Run from `s`, the computation `x` only loads and forces, and `P` holds of what it answers and of
the store behind it. -/
def Answers (produce : α → Doc α) (s : Store α) (x : MemoM α β) (P : Store α → β → Prop) : Prop :=
  Run produce s (x s).2 ∧ P (x s).2 (x s).1

namespace Answers

variable {P : Store α → β → Prop} {Q : Store α → γ → Prop} {x : MemoM α β} {f : β → MemoM α γ}

theorem pure {b : β} (h : P s b) : Answers produce s (pure b) P := ⟨.done s, h⟩

/-- Answers are put together as computations are: `P` says where `f` begins. -/
theorem bind (hx : Answers produce s x P)
    (hf : ∀ s' b, Run produce s s' → P s' b → Answers produce s' (f b) Q) :
    Answers produce s (x >>= f) Q := by
  obtain ⟨hrun, hP⟩ := hx
  obtain ⟨hrun', hQ⟩ := hf _ _ hrun hP
  exact ⟨hrun.trans hrun', hQ⟩

end Answers

theorem answers_load (doc : Doc α) :
    Answers produce s (load doc) fun s' d => Doc.Related s'.Makes d doc :=
  ⟨.load doc (.done _), related_load doc s⟩

/-- A producer answers what `produce` says of its source. -/
theorem answers_force (hs : Sound produce s) (h : s.Makes id a) :
    Answers produce s (force produce id) fun s' d => Doc.Related s'.Makes d (produce a) := by
  refine ⟨.force id (.done _), ?_⟩
  cases hid : s.produced? id with
  | some d =>
    obtain ⟨b, hb, hrelated⟩ := hs id d hid
    obtain rfl : a = b := Option.some.inj (h.symm.trans hb)
    rw [force_of_produced hid]
    exact hrelated
  | none =>
    rw [force_of_makes h hid]
    rw [makes_remember]
    exact related_load (produce a) s

theorem answers_loadAll (docs : List (Doc α)) :
    Answers produce s (docs.mapM load) fun s' ds =>
      List.Forall₂ (Doc.Related s'.Makes) ds docs := by
  induction docs generalizing s with
  | nil => exact .pure .nil
  | cons doc rest ih =>
    rw [List.mapM_cons]
    refine (answers_load doc).bind fun s₁ d _ hd => ih.bind fun s₂ ds hrun hds => .pure ?_
    exact .cons (hd.imp hrun.extends.makes) hds

/-! ## Components -/

open Components

variable {steps : Nat} {waiting : Dict Nat} {waiting' : Dict α} {finished : Dict Json}

/-- The source of each producer waits where the producer does, and as much is finished. -/
theorem answers_collectFrom (hs : Sound produce s) (h : Dict.Related s.Makes waiting waiting') :
    Answers produce s (collectFrom (force produce) steps waiting finished) fun _ components =>
      components = collectFrom (m := Id) (fun a => pure (produce a)) steps waiting' finished := by
  induction steps generalizing s waiting waiting' finished with
  | zero => cases h <;> exact .pure rfl
  | succ steps ih =>
    cases h with
    | nil => exact .pure rfl
    | @cons e f waiting waiting' hef hrest =>
      obtain ⟨name, id⟩ := e
      obtain ⟨name', a⟩ := f
      obtain ⟨rfl, ha⟩ : name = name' ∧ s.Makes id a := hef
      unfold collectFrom
      split
      · exact ih hs hrest
      · refine (answers_force hs ha).bind fun s' d hrun hd => ?_
        have hnew := hd.found.filter fun n => !finished.contains n && n ≠ name
        have hpush := related_push (Dict.Related.imp hrest hrun.extends.makes) hnew
        rw [hd.fragment]
        exact ih (hrun.sound hs) hpush

theorem answers_collect (hs : Sound produce s) {docs : List (Doc Nat)} {docs' : List (Doc α)}
    (h : List.Forall₂ (Doc.Related s.Makes) docs docs') :
    Answers produce s (collect produce steps docs) fun _ components =>
      components = Components.collect (m := Id) (fun a => pure (produce a)) steps docs' := by
  have hwaiting : Dict.Related s.Makes (docs.foldl (fun acc d => push acc d.found) [])
      (docs'.foldl (fun acc d => push acc d.found) []) :=
    List.rel_foldl (P := Dict.Related s.Makes) (fun _ _ hacc _ _ hd => related_push hacc hd.found)
      .nil h
  refine (answers_collectFrom hs hwaiting).bind fun s' components _ hcomponents => .pure ?_
  exact congrArg (Option.map Dict.sortByName) hcomponents

/-! ## Parameters -/

theorem answers_reachableFrom {finished : Dict (Doc Nat)} {finished' : Dict (Doc α)}
    (hs : Sound produce s) (h : Dict.Related s.Makes waiting waiting')
    (hfinished : Dict.Related (Doc.Related s.Makes) finished finished') :
    Answers produce s (reachableFrom (force produce) steps waiting finished) fun s' docs =>
      Dict.Related (Doc.Related s'.Makes) docs
        (reachableFrom (m := Id) (fun a => pure (produce a)) steps waiting' finished') := by
  induction steps generalizing s waiting waiting' finished finished' with
  | zero => cases h <;> exact .pure hfinished
  | succ steps ih =>
    cases h with
    | nil => exact .pure hfinished
    | @cons e f waiting waiting' hef hrest =>
      obtain ⟨name, id⟩ := e
      obtain ⟨name', a⟩ := f
      obtain ⟨rfl, ha⟩ : name = name' ∧ s.Makes id a := hef
      have hcontains := fun n => hfinished.contains_eq n
      unfold reachableFrom
      rw [hcontains]
      split
      · exact ih hs hrest hfinished
      · refine (answers_force hs ha).bind fun s' d hrun hd => ?_
        have hmakes := hrun.extends.makes
        have hnew := hd.found.filter fun n => !finished'.contains n
        simp only [hcontains]
        refine ih (hrun.sound hs) ?_ ?_
        · exact List.rel_append (List.rel_reverse hnew) (Dict.Related.imp hrest hmakes)
        · exact (hfinished.imp fun _ _ h => h.imp hmakes).insert hd name

theorem answers_parameters (hs : Sound produce s) {d : Doc Nat} {doc : Doc α}
    (h : Doc.Related s.Makes d doc) (location : Location) :
    Answers produce s (parameters produce steps d location) fun _ ps =>
      ps = Parameter.ofDoc (m := Id) (fun a => pure (produce a)) steps doc location := by
  refine (answers_reachableFrom hs (List.rel_reverse h.found) .nil).bind fun s' docs _ hdocs =>
    .pure ?_
  rw [hdocs.mapValues_eq fun _ _ h => h.fragment, h.fragment]
  rfl

/-! ## No store -/

/-- **Producers that remember have the components that `produce` has.** -/
theorem load_collect (produce : α → Doc α) (steps : Nat) (docs : List (Doc α)) :
    Answers produce .empty (do collect produce steps (← docs.mapM load)) fun _ components =>
      components = Components.collect (m := Id) (fun a => pure (produce a)) steps docs :=
  (answers_loadAll docs).bind fun _ _ hrun hds =>
    answers_collect (hrun.sound (sound_empty produce)) hds

/-- **Producers that remember have the parameters that `produce` has.** -/
theorem load_parameters (produce : α → Doc α) (steps : Nat) (doc : Doc α) (location : Location) :
    Answers produce .empty (do parameters produce steps (← load doc) location) fun _ ps =>
      ps = Parameter.ofDoc (m := Id) (fun a => pure (produce a)) steps doc location :=
  (answers_load doc).bind fun _ _ hrun hd =>
    answers_parameters (hrun.sound (sound_empty produce)) hd location

end Memo

end JsonShape
