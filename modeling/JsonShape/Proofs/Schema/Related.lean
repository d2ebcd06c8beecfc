import JsonShape.Proofs.Dict
import JsonShape.Proofs.Members
import JsonShape.Schema.Component

/-!
# Documentation that differs in its producers

Inputs and outputs are documented by the same functions, with producers of their own. Where two
sides start with the same fragments and with related producers under the same names, they keep to
that throughout, and collecting their components answers the same.

* `Doc.Related` relates two sides, given how producers are related.
* `related_combine`, `related_record`: what is built from related documentation is related.
* `collect_eq_of_related`: related roots have the same components.
* `collect_mono`: more steps answer no other components.
-/

namespace JsonShape

variable {α β : Type} {R : α → β → Prop}

/-- Members that weigh the same one by one weigh the same together. -/
theorem total_of_forall₂ {f : α → Nat} {g : β → Nat} {as : List α} {bs : List β}
    (h : List.Forall₂ R as bs) (hfg : ∀ a b, R a b → f a = g b) :
    total f as = total g bs := by
  induction h with
  | nil => rfl
  | cons hab _ ih => rw [total, total, hfg _ _ hab, ih]

namespace Dict

variable {d more : Dict α} {d' more' : Dict β} {name : String}

/-- The same names in the same order, with values that `R` relates. -/
def Related (R : α → β → Prop) (d : Dict α) (d' : Dict β) : Prop :=
  List.Forall₂ (fun e f => e.1 = f.1 ∧ R e.2 f.2) d d'

theorem Related.contains_eq (h : Related R d d') (name : String) :
    d.contains name = d'.contains name := by
  unfold contains
  induction h with
  | nil => rfl
  | @cons e f d d' hef _ ih =>
    obtain ⟨k, a⟩ := e
    obtain ⟨l, b⟩ := f
    obtain rfl : k = l := hef.1
    unfold get?
    split
    · rfl
    · exact ih

/-- Entries that are added unless their names are there are added on both sides, wherever they are
put. -/
theorem Related.foldl_unless {add : Dict α → String × α → Dict α}
    {add' : Dict β → String × β → Dict β}
    (hadd : ∀ d d' e f, Related R d d' → e.1 = f.1 ∧ R e.2 f.2 → Related R (add d e) (add' d' f))
    (h : Related R d d') (hmore : Related R more more') :
    Related R (more.foldl (fun acc e => if acc.contains e.1 then acc else add acc e) d)
      (more'.foldl (fun acc f => if acc.contains f.1 then acc else add' acc f) d') := by
  refine List.rel_foldl (fun acc acc' hacc e f hef => ?_) h hmore
  show Related R (if acc.contains e.1 then acc else add acc e)
    (if acc'.contains f.1 then acc' else add' acc' f)
  rw [hacc.contains_eq, hef.1]
  split
  · exact hacc
  · exact hadd acc acc' e f hacc hef

theorem Related.imp {S : α → β → Prop} (h : Related R d d') (hRS : ∀ a b, R a b → S a b) :
    Related S d d' :=
  List.Forall₂.imp (fun _ _ hef => ⟨hef.1, hRS _ _ hef.2⟩) h

theorem Related.absorb (h : Related R d d') (hmore : Related R more more') :
    Related R (d.absorb more) (d'.absorb more') :=
  h.foldl_unless (fun _ _ _ _ hd hef => List.rel_append hd (.cons hef .nil)) hmore

theorem Related.filter (h : Related R d d') (p : String → Bool) :
    Related R (d.filter fun e => p e.1) (d'.filter fun f => p f.1) :=
  List.rel_filter (fun e f hef => by show p e.1 = true ↔ p f.1 = true; rw [hef.1]) h

theorem Related.insert {a : α} {b : β} (h : Related R d d') (hab : R a b) (name : String) :
    Related R (d.insert name a) (d'.insert name b) := by
  induction h with
  | nil => exact .cons ⟨rfl, hab⟩ .nil
  | @cons e f d d' hef hrest ih =>
    obtain ⟨k, x⟩ := e
    obtain ⟨l, y⟩ := f
    obtain rfl : k = l := hef.1
    unfold Dict.insert
    split
    · exact .cons ⟨rfl, hab⟩ hrest
    · exact .cons hef ih

theorem Related.mapValues_eq {γ : Type} {f : α → γ} {g : β → γ} (h : Related R d d')
    (hfg : ∀ a b, R a b → f a = g b) : d.mapValues f = d'.mapValues g :=
  map_eq_of_forall₂ h fun _ _ hef => Prod.ext hef.1 (hfg _ _ hef.2)

end Dict

namespace Doc

/-- The same fragment, with related producers under the same names. -/
structure Related (R : α → β → Prop) (d : Doc α) (d' : Doc β) : Prop where
  fragment : d.fragment = d'.fragment
  found : Dict.Related R d.found d'.found

variable {d : Doc α} {d' : Doc β} {docs : List (Doc α)} {docs' : List (Doc β)}

theorem Related.imp {S : α → β → Prop} (h : Related R d d') (hRS : ∀ a b, R a b → S a b) :
    Related S d d' :=
  ⟨h.fragment, h.found.imp hRS⟩

theorem related_plain (f : Json) : Related R (plain f) (plain f) := ⟨rfl, .nil⟩

theorem related_reference {p : α} {q : β} (name : String) (h : R p q) :
    Related R (reference name p) (reference name q) := ⟨rfl, .cons ⟨rfl, h⟩ .nil⟩

theorem Related.mapFragment (h : Related R d d') (f : Json → Json) :
    Related R (d.mapFragment f) (d'.mapFragment f) :=
  ⟨congrArg f h.fragment, h.found⟩

/-- What is built from related documentation is related. -/
theorem related_combine (h : List.Forall₂ (Related R) docs docs') (f : List Json → Json) :
    Related R (combine docs f) (combine docs' f) := by
  have hfragments : docs.map Doc.fragment = docs'.map Doc.fragment :=
    map_eq_of_forall₂ h fun _ _ hd => hd.fragment
  have hfound : Dict.Related R (docs.foldl (fun acc d => acc.absorb d.found) [])
      (docs'.foldl (fun acc d => acc.absorb d.found) []) :=
    List.rel_foldl (P := Dict.Related R) (fun _ _ hacc _ _ hd => hacc.absorb hd.found) .nil h
  exact ⟨congrArg f hfragments, hfound⟩

/-- Members that are declared alike and have related documentation. -/
def MemberRelated (R : α → β → Prop) (m : Member (Doc α)) (n : Member (Doc β)) : Prop :=
  m.key = n.key ∧ m.required = n.required ∧ m.description = n.description ∧
    Related R m.value n.value

theorem related_ofMember {m : Member (Doc α)} {n : Member (Doc β)} (h : MemberRelated R m n) :
    Related R (ofMember m) (ofMember n) := by
  obtain ⟨-, -, hdescription, hvalue⟩ := h
  unfold ofMember
  rw [hdescription]
  split
  · exact hvalue.mapFragment _
  · exact hvalue

/-- A record of related members is related: redeclaring, the order of the properties and the
required members depend on what is declared alike (`MemberRelated`). -/
theorem related_record {ms : List (Member (Doc α))} {ns : List (Member (Doc β))}
    (h : List.Forall₂ (MemberRelated R) ms ns) : Related R (record ms) (record ns) := by
  have hdistinct : List.Forall₂ (MemberRelated R) (Member.distinct ms) (Member.distinct ns) :=
    Member.distinct_forall₂ (fun _ _ h => h.1) h
  have hkeys : Member.keys (Member.distinct ms) = Member.keys (Member.distinct ns) :=
    map_eq_of_forall₂ hdistinct fun _ _ h => h.1
  have hfiltered : List.Forall₂ (MemberRelated R) ((Member.distinct ms).filter Member.required)
      ((Member.distinct ns).filter Member.required) :=
    List.rel_filter (fun m n h => by show m.required = true ↔ n.required = true; rw [h.2.1])
      hdistinct
  have hrequired : ((Member.distinct ms).filter Member.required).map Member.key =
      ((Member.distinct ns).filter Member.required).map Member.key :=
    map_eq_of_forall₂ hfiltered fun _ _ h => h.1
  have hdocs : List.Forall₂ (Related R) ((Member.distinct ms).map ofMember)
      ((Member.distinct ns).map ofMember) := by
    rw [List.forall₂_map_left_iff, List.forall₂_map_right_iff]
    exact hdistinct.imp fun _ _ => related_ofMember
  unfold record
  simp only [hkeys, hrequired]
  exact related_combine hdocs _

end Doc

namespace Components

variable {force : α → Doc α} {force' : β → Doc β} {waiting : Dict α} {waiting' : Dict β}
  {finished components : Dict Json} {steps steps' : Nat}

theorem related_push {more : Dict α} {more' : Dict β} (h : Dict.Related R waiting waiting')
    (hmore : Dict.Related R more more') :
    Dict.Related R (push waiting more) (push waiting' more') :=
  h.foldl_unless (fun _ _ _ _ hd hef => .cons hef hd) hmore

/-- A search goes the same way from related producers, step by step, and so it answers the same
components. -/
theorem collectFrom_eq_of_related (hforce : ∀ p q, R p q → Doc.Related R (force p) (force' q))
    (h : Dict.Related R waiting waiting') :
    collectFrom (m := Id) (fun p => pure (force p)) steps waiting finished =
      collectFrom (m := Id) (fun q => pure (force' q)) steps waiting' finished := by
  induction steps generalizing waiting waiting' finished with
  | zero => cases h <;> rfl
  | succ steps ih =>
    cases h with
    | nil => rfl
    | @cons e f waiting waiting' hef hrest =>
      obtain ⟨name, p⟩ := e
      obtain ⟨name', q⟩ := f
      obtain ⟨rfl, hpq⟩ : name = name' ∧ R p q := hef
      have hdoc := hforce p q hpq
      unfold collectFrom
      split
      · exact ih hrest
      · -- the same fragment is written down, and related producers are pushed
        have hnew := hdoc.found.filter fun n => !finished.contains n && n ≠ name
        have hpush := related_push hrest hnew
        show collectFrom (m := Id) _ steps _ (finished.insert name (force p).fragment) =
          collectFrom (m := Id) _ steps _ (finished.insert name (force' q).fragment)
        rw [hdoc.fragment]
        exact ih hpush

/-- **Related roots have the same components**, if `R` keeps what is forced related. -/
theorem collect_eq_of_related (hforce : ∀ p q, R p q → Doc.Related R (force p) (force' q))
    {roots : List (Doc α)} {roots' : List (Doc β)}
    (h : List.Forall₂ (Doc.Related R) roots roots') :
    collect (m := Id) (fun p => pure (force p)) steps roots =
      collect (m := Id) (fun q => pure (force' q)) steps roots' := by
  have hwaiting : Dict.Related R (roots.foldl (fun acc d => push acc d.found) [])
      (roots'.foldl (fun acc d => push acc d.found) []) :=
    List.rel_foldl (P := Dict.Related R) (fun _ _ hacc _ _ hd => related_push hacc hd.found) .nil h
  exact congrArg (Option.map Dict.sortByName) (collectFrom_eq_of_related hforce hwaiting)

theorem collectFrom_mono (h : collectFrom (m := Id) (fun p => pure (force p)) steps waiting
    finished = some components) (hle : steps ≤ steps') :
    collectFrom (m := Id) (fun p => pure (force p)) steps' waiting finished =
      some components := by
  induction steps generalizing waiting finished steps' with
  | zero =>
    cases waiting with
    | nil => cases steps' <;> exact h
    | cons e rest => cases h
  | succ steps ih =>
    obtain ⟨steps', rfl⟩ : ∃ n, steps' = n + 1 := ⟨steps' - 1, by omega⟩
    cases waiting with
    | nil => exact h
    | cons e rest =>
      obtain ⟨name, p⟩ := e
      unfold collectFrom at h ⊢
      split at h
      · next hname =>
        rw [if_pos hname]
        exact ih h (by omega)
      · next hname =>
        rw [if_neg hname]
        exact ih h (by omega)

/-- More steps answer no other components. -/
theorem collect_mono {roots : List (Doc α)}
    (h : collect (m := Id) (fun p => pure (force p)) steps roots = some components)
    (hle : steps ≤ steps') :
    collect (m := Id) (fun p => pure (force p)) steps' roots = some components := by
  obtain ⟨cs, hcs, rfl⟩ := Option.map_eq_some_iff.1 h
  exact congrArg (Option.map Dict.sortByName) (collectFrom_mono hcs hle)

end Components

end JsonShape
