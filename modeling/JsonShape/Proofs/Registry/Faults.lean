import JsonShape.Proofs.Registry.Guarded
import JsonShape.Proofs.Registry.WorkList
import JsonShape.Regex.Pattern

/-!
# What is wrong with a registry

A registry is turned into inputs, and its types are compiled. The first walks through every
description at once, the second only follows what is found in trees, from one type to those that it
mentions. Still both refuse the same registries (`Compiler.refuses_alike`), as far as patterns are
regular expressions: compiling looks at no rule.

* `Blames`: a construction fails if and only if something is wrong, and then says what.
* `TypeDef.Fault`: what is wrong with a description is a type that it mentions, at any depth, and
  that is not there, or a pattern among its rules, at any depth, that is no regular expression.
* `Registry.blames_inputs`: the inputs of a registry fail for the faults of its descriptions, by
  induction on the description.
* `Registry.closed_iff`: all that is mentioned is there if and only if all that is reachable is.
-/

namespace JsonShape

/-! ## Constructions that fail -/

/-- A construction fails if and only if something is `Wrong`, with an error that says what. -/
structure Blames {α : Type} (result : Except DefinitionError α) (Wrong : DefinitionError → Prop) :
    Prop where
  /-- An error says what is wrong. -/
  wrong : ∀ e, result = .error e → Wrong e
  /-- Where there is a result, nothing is wrong. -/
  right : ∀ a, result = .ok a → ∀ e, ¬Wrong e

namespace Blames

variable {α β : Type} {x : Except DefinitionError α} {f : α → Except DefinitionError β}
  {Wrong Wrong' : DefinitionError → Prop}

theorem ok (a : α) : Blames (.ok a) fun _ => False where
  wrong e h := by cases h
  right _ _ _ := id

theorem error (e : DefinitionError) : Blames (.error e : Except DefinitionError α) (· = e) where
  wrong e' h := (Except.error.inj h).symm
  right a h := by cases h

theorem congr (h : Blames x Wrong) (hiff : ∀ e, Wrong' e ↔ Wrong e) : Blames x Wrong' where
  wrong e he := (hiff e).2 (h.wrong e he)
  right a ha e he := h.right a ha e ((hiff e).1 he)

/-- Of two steps either can fail; the second is only taken if the first does not. -/
theorem bind (hx : Blames x Wrong) (hf : ∀ a, x = .ok a → Blames (f a) Wrong') :
    Blames (x >>= f) fun e => Wrong e ∨ Wrong' e := by
  cases x with
  | error e =>
    have he : Wrong e := hx.wrong e rfl
    constructor
    · intro e' h
      obtain rfl : e = e' := Except.error.inj h
      exact Or.inl he
    · intro b h
      cases h
  | ok a =>
    have ha := hf a rfl
    constructor
    · exact fun e h => Or.inr (ha.wrong e h)
    · intro b h e he
      exact he.elim (hx.right a rfl e) (ha.right b h e)

/-- What is done to a result without fail changes no fault. -/
theorem map (hx : Blames x Wrong) (g : α → β) : Blames (x >>= fun a => .ok (g a)) Wrong :=
  (hx.bind fun a _ => ok (g a)).congr fun _ => (or_iff_left id).symm

theorem mapM {xs : List α} {W : α → DefinitionError → Prop} (h : ∀ x ∈ xs, Blames (f x) (W x)) :
    Blames (xs.mapM f) fun e => ∃ x ∈ xs, W x e := by
  induction xs with
  | nil => exact (ok []).congr fun e => by simp
  | cons x rest ih =>
    rw [List.mapM_cons]
    have hrest := ih fun y hy => h y (List.mem_cons_of_mem _ hy)
    refine ((h x List.mem_cons_self).bind fun b _ => hrest.map (b :: ·)).congr fun e => ?_
    simp

theorem foldlM {g : β → α → Except DefinitionError β} {W : α → DefinitionError → Prop}
    (h : ∀ b x, Blames (g b x) (W x)) (xs : List α) (b : β) :
    Blames (xs.foldlM g b) fun e => ∃ x ∈ xs, W x e := by
  induction xs generalizing b with
  | nil => exact (ok b).congr fun e => by simp
  | cons x rest ih =>
    rw [List.foldlM_cons]
    refine ((h b x).bind fun b' _ => ih b').congr fun e => ?_
    simp

theorem exists_ok_iff (h : Blames x Wrong) : (∃ a, x = .ok a) ↔ ∀ e, ¬Wrong e := by
  constructor
  · rintro ⟨a, ha⟩
    exact h.right a ha
  · intro hnone
    cases x with
    | error e => exact absurd (h.wrong e rfl) (hnone e)
    | ok a => exact ⟨a, rfl⟩

theorem exists_error_iff (h : Blames x Wrong) : (∃ e, x = .error e) ↔ ∃ e, Wrong e := by
  constructor
  · rintro ⟨e, he⟩
    exact ⟨e, h.wrong e he⟩
  · rintro ⟨e, he⟩
    cases x with
    | error e' => exact ⟨e', rfl⟩
    | ok a => exact absurd he (h.right a rfl e)

end Blames

namespace TypeDef

variable {registry : Registry} {text : String} {e : DefinitionError}

/-! ## Patterns of a description -/

/-- The pattern `text` stands among the rules of the description or of one inside it. -/
def HasPattern (d : TypeDef) (text : String) : Prop :=
  ∃ base rules, .constrained base rules ∈ d.parts ∧ .pattern text ∈ rules

@[simp] theorem hasPattern_struct {keys : List (Member TypeDef)} :
    (struct keys).HasPattern text ↔ ∃ m ∈ keys, m.value.HasPattern text := by
  simp only [HasPattern, parts, List.mem_cons, mem_keyParts, reduceCtorEq, false_or]
  constructor
  · rintro ⟨base, rules, ⟨m, hm, hpart⟩, htext⟩
    exact ⟨m, hm, base, rules, hpart, htext⟩
  · rintro ⟨m, hm, base, rules, hpart, htext⟩
    exact ⟨base, rules, ⟨m, hm, hpart⟩, htext⟩

@[simp] theorem hasPattern_sum {left right : TypeDef} :
    (sum left right).HasPattern text ↔ left.HasPattern text ∨ right.HasPattern text := by
  simp only [HasPattern, parts, List.mem_cons, List.mem_append, reduceCtorEq, false_or,
    or_and_right, exists_or]

@[simp] theorem hasPattern_constrained {base : TypeDef} {rules : List Constraint} :
    (constrained base rules).HasPattern text ↔
      .pattern text ∈ rules ∨ base.HasPattern text := by
  simp only [HasPattern, parts, List.mem_cons, constrained.injEq, or_and_right, exists_or]
  refine or_congr_left ⟨?_, fun h => ⟨base, rules, ⟨rfl, rfl⟩, h⟩⟩
  rintro ⟨_, _, ⟨rfl, rfl⟩, h⟩
  exact h

@[simp] theorem hasPattern_array {member : TypeDef} :
    (array member).HasPattern text ↔ member.HasPattern text := by
  simp only [HasPattern, parts, List.mem_cons, reduceCtorEq, false_or]

@[simp] theorem not_hasPattern_enum {values : List Literal} : ¬(enum values).HasPattern text := by
  simp [HasPattern, parts]

@[simp] theorem not_hasPattern_scalar {s : Scalar} : ¬(scalar s).HasPattern text := by
  simp [HasPattern, parts]

@[simp] theorem not_hasPattern_named {name : String} : ¬(named name).HasPattern text := by
  simp [HasPattern, parts]

/-! ## Faults of a description -/

variable [Regex.Engine]

/-- What is wrong with a description, at any depth, as the error `e` says it: a type that is not in
the registry, or a pattern that is no regular expression. -/
def Fault (registry : Registry) (d : TypeDef) (e : DefinitionError) : Prop :=
  (∃ name, d.Mentions name ∧ registry.get? name = none ∧ e = .unknownType name) ∨
    ∃ text, d.HasPattern text ∧ Regex.compile? text = none ∧ e = .invalidPattern text

/-- The fault of a pattern that is no regular expression. -/
def PatternFault (rule : Constraint) (e : DefinitionError) : Prop :=
  ∃ text, rule = .pattern text ∧ Regex.compile? text = none ∧ e = .invalidPattern text

theorem fault_struct {keys : List (Member TypeDef)} :
    (struct keys).Fault registry e ↔ ∃ m ∈ keys, m.value.Fault registry e := by
  simp only [Fault, mentions_struct, hasPattern_struct]
  constructor
  · rintro (⟨name, ⟨m, hm, hname⟩, h⟩ | ⟨text, ⟨m, hm, htext⟩, h⟩)
    · exact ⟨m, hm, Or.inl ⟨name, hname, h⟩⟩
    · exact ⟨m, hm, Or.inr ⟨text, htext, h⟩⟩
  · rintro ⟨m, hm, ⟨name, hname, h⟩ | ⟨text, htext, h⟩⟩
    · exact Or.inl ⟨name, ⟨m, hm, hname⟩, h⟩
    · exact Or.inr ⟨text, ⟨m, hm, htext⟩, h⟩

theorem fault_sum {left right : TypeDef} :
    (sum left right).Fault registry e ↔ left.Fault registry e ∨ right.Fault registry e := by
  simp only [Fault, mentions_sum, hasPattern_sum, or_and_right, exists_or]
  exact or_or_or_comm ..

theorem fault_constrained {base : TypeDef} {rules : List Constraint} :
    (constrained base rules).Fault registry e ↔
      base.Fault registry e ∨ ∃ rule ∈ rules, PatternFault rule e := by
  have hrules : (∃ rule ∈ rules, PatternFault rule e) ↔ ∃ text, .pattern text ∈ rules ∧
      Regex.compile? text = none ∧ e = .invalidPattern text := by
    constructor
    · rintro ⟨_, hrule, text, rfl, h⟩
      exact ⟨text, hrule, h⟩
    · rintro ⟨text, hrule, h⟩
      exact ⟨_, hrule, text, rfl, h⟩
  simp only [Fault, mentions_constrained, hasPattern_constrained, or_and_right, exists_or, hrules]
  rw [or_assoc, or_comm (a := ∃ text, Constraint.pattern text ∈ rules ∧ _)]

theorem fault_array {member : TypeDef} :
    (array member).Fault registry e ↔ member.Fault registry e := by
  simp only [Fault, mentions_array, hasPattern_array]

theorem fault_named {name : String} :
    (named name).Fault registry e ↔ registry.get? name = none ∧ e = .unknownType name := by
  simp [Fault]

/-! ## Inputs -/

theorem keyInputs_eq_mapM (registry : Registry) (keys : List (Member TypeDef)) :
    keyInputs registry keys = keys.mapM fun k =>
      input registry k.value >>= fun i => .ok ⟨k.key, i, k.required, k.description⟩ := by
  induction keys with
  | nil => rfl
  | cons k rest ih =>
    rw [List.mapM_cons, ← ih, keyInputs]
    cases input registry k.value <;> rfl

theorem blames_refine (i : Input) (rule : Constraint) :
    Blames (rule.refine i) (PatternFault rule) := by
  cases rule with
  | pattern text =>
    simp only [Constraint.refine]
    cases h : Regex.compile? text with
    | some regex => exact (Blames.ok _).congr fun e => by simp [PatternFault, h]
    | none => exact (Blames.error _).congr fun e => by simp [PatternFault, h]
  | _ => exact (Blames.ok _).congr fun e => by simp [PatternFault]

theorem blames_refineAll (i : Input) (rules : List Constraint) :
    Blames (refineAll i rules) fun e => ∃ rule ∈ rules, PatternFault rule e :=
  Blames.foldlM blames_refine rules _

/-- **The input of a description fails for its faults**, wherever in the description they are: a
`Fault` is found if there is one, and only then. -/
theorem blames_input (registry : Registry) (d : TypeDef) :
    Blames (d.input registry) (d.Fault registry) := by
  induction d with
  | struct keys ih =>
    have hkeys : Blames (keyInputs registry keys) fun e =>
        ∃ m ∈ keys, m.value.Fault registry e := by
      rw [keyInputs_eq_mapM]
      exact Blames.mapM fun m hm => (ih m hm).map _
    rw [input]
    exact (hkeys.map _).congr fun _ => fault_struct
  | sum left right ihl ihr =>
    rw [input]
    exact (ihl.bind fun l _ => ihr.map _).congr fun _ => fault_sum
  | constrained base rules ih =>
    rw [input]
    exact (ih.bind fun i _ => blames_refineAll i rules).congr fun _ => fault_constrained
  | array member ih =>
    rw [input]
    exact (ih.map _).congr fun _ => fault_array
  | enum values => exact (Blames.ok _).congr fun e => by simp [Fault]
  | scalar s => exact (Blames.ok _).congr fun e => by simp [Fault]
  | named name =>
    rw [input, Dict.contains]
    split
    · next h =>
      refine (Blames.ok _).congr fun e => ?_
      rw [fault_named, iff_false]
      rintro ⟨hnone, -⟩
      simp [hnone] at h
    · next h =>
      refine (Blames.error _).congr fun e => ?_
      rw [fault_named, and_iff_right (by simpa using h)]

end TypeDef

namespace Registry

variable [Regex.Engine] {registry : Registry} {root name : String}

/-- **The inputs of a registry fail for the faults of its descriptions**, whatever the engine takes
for regular expressions. -/
theorem blames_inputs (registry : Registry) :
    Blames registry.inputs fun e => ∃ entry ∈ registry, entry.2.Fault registry e :=
  Blames.mapM fun entry _ => ((TypeDef.blames_input registry entry.2).map _).map _

/-! ## Closed registries -/

/-- Every type that a description mentions, at any depth, is in the registry. -/
def Closed (registry : Registry) : Prop :=
  ∀ entry ∈ registry, ∀ name, entry.2.Mentions name → registry.contains name

/-- Every pattern in a description, at any depth, is a regular expression to the engine. -/
def PatternsCompile (registry : Registry) : Prop :=
  ∀ entry ∈ registry, ∀ text, entry.2.HasPattern text → (Regex.compile? text).isSome

omit [Regex.Engine] in
theorem Closed.contains_of_reaches (h : registry.Closed) (hroot : registry.contains root)
    (hr : registry.Reaches root name) : registry.contains name := by
  induction hr with
  | refl => exact hroot
  | @tail a b _ hm _ =>
    obtain ⟨d, hd, hb⟩ := hm
    exact h (a, d) (Dict.mem_of_get? hd) b hb

omit [Regex.Engine] in
/-- All that is mentioned is in the registry if and only if all is that its types reach. -/
theorem closed_iff (hnames : registry.names.Nodup) : registry.Closed ↔
    ∀ root ∈ registry.names, ∀ name, registry.Reaches root name → registry.contains name := by
  constructor
  · exact fun h root hroot name hr => h.contains_of_reaches (Dict.contains_iff.2 hroot) hr
  · intro h entry hentry name hname
    have hget : registry.get? entry.1 = some entry.2 := (Dict.get?_eq_some_iff hnames).2 hentry
    have hmentions : registry.Mentions entry.1 name := ⟨entry.2, hget, hname⟩
    exact h entry.1 (List.mem_map_of_mem hentry) name (.single hmentions)

theorem exists_fault_iff : (∃ e, ∃ entry ∈ registry, entry.2.Fault registry e) ↔
    (∃ entry ∈ registry, ∃ name, entry.2.Mentions name ∧ registry.get? name = none) ∨
      ∃ entry ∈ registry, ∃ text, entry.2.HasPattern text ∧ Regex.compile? text = none := by
  constructor
  · rintro ⟨e, entry, hentry, ⟨name, hname, hnone, -⟩ | ⟨text, htext, hnone, -⟩⟩
    · exact Or.inl ⟨entry, hentry, name, hname, hnone⟩
    · exact Or.inr ⟨entry, hentry, text, htext, hnone⟩
  · rintro (⟨entry, hentry, name, hname, hnone⟩ | ⟨entry, hentry, text, htext, hnone⟩)
    · exact ⟨_, entry, hentry, Or.inl ⟨name, hname, hnone, rfl⟩⟩
    · exact ⟨_, entry, hentry, Or.inr ⟨text, htext, hnone, rfl⟩⟩

/-- A registry has inputs if and only if it is closed and its patterns are regular expressions. -/
theorem exists_inputs_iff :
    (∃ inputs, registry.inputs = .ok inputs) ↔ registry.Closed ∧ registry.PatternsCompile := by
  rw [(blames_inputs registry).exists_ok_iff, ← not_exists, exists_fault_iff, not_or]
  refine and_congr ?_ ?_
  · simp only [Closed, Dict.contains, Option.isSome_iff_ne_none, ne_eq, not_exists, not_and]
  · simp only [PatternsCompile, Option.isSome_iff_ne_none, ne_eq, not_exists, not_and]

end Registry

namespace Compiler

variable {registry : Registry}

/-- After any history, every type can be added if and only if the registry is closed. -/
theorem forall_add_iff (hnames : registry.names.Nodup) (history : List String) :
    (∀ name ∈ registry.names, (add registry (addAll registry new history) name).1 = .ok ()) ↔
      registry.Closed := by
  have hs := (settled_new registry).after_addAll history
  rw [Registry.closed_iff hnames]
  simp only [hs.add_eq_ok_iff]

/-- **Inputs and compiler refuse the same registries**, whatever the engine takes for regular
expressions (`Regex.compile?` is any function). For a registry with distinct names:

* it has no inputs if and only if a description mentions, at any depth, a type that is not in the
  registry, or has, at any depth, a pattern that is no regular expression;
* if all its patterns are regular expressions (`PatternsCompile`), it has inputs if and only if each
  of its types can be added to a compiler, whatever `history` has been added before, and this is so
  if and only if every type that a description mentions is in the registry (`Closed`). -/
theorem refuses_alike [Regex.Engine] (registry : Registry) (hnames : registry.names.Nodup) :
    ((∃ e, registry.inputs = .error e) ↔
      (∃ entry ∈ registry, ∃ name, entry.2.Mentions name ∧ registry.get? name = none) ∨
        ∃ entry ∈ registry, ∃ text, entry.2.HasPattern text ∧ Regex.compile? text = none) ∧
    (registry.PatternsCompile → ∀ history : List String,
      ((∃ inputs, registry.inputs = .ok inputs) ↔ ∀ name ∈ registry.names,
        (add registry (addAll registry new history) name).1 = .ok ()) ∧
      ((∃ inputs, registry.inputs = .ok inputs) ↔ registry.Closed)) := by
  refine ⟨?_, fun hpatterns history => ?_⟩
  · rw [(Registry.blames_inputs registry).exists_error_iff, Registry.exists_fault_iff]
  · have hclosed : (∃ inputs, registry.inputs = .ok inputs) ↔ registry.Closed :=
      Registry.exists_inputs_iff.trans (and_iff_left hpatterns)
    exact ⟨hclosed.trans (forall_add_iff hnames history).symm, hclosed⟩

end Compiler

namespace Compiler

attribute [local instance] Regex.Engine.standard

/-- Pages with a code, each with another page or none behind it. -/
theorem refuses_alike_pages :
    let registry : Registry := [
      ("Page", .struct [⟨"code", .named "Code", true, none⟩,
        ⟨"next", .sum (.named "Page") (.scalar .null), false, none⟩]),
      ("Code", .constrained (.scalar .string) [.pattern "^a+$"])]
    (∃ inputs, registry.inputs = .ok inputs) ∧ ∀ history : List String,
      ∀ name ∈ registry.names, (add registry (addAll registry new history) name).1 = .ok () := by
  intro registry
  have hpatterns : registry.PatternsCompile := by
    intro entry hentry text htext
    simp only [registry, List.mem_cons, List.not_mem_nil, or_false] at hentry
    rcases hentry with rfl | rfl
    · simp at htext
    · obtain rfl : text = "^a+$" := by simpa using htext
      decide
  have hclosed : registry.Closed := by
    intro entry hentry name hname
    simp only [registry, List.mem_cons, List.not_mem_nil, or_false] at hentry
    rcases hentry with rfl | rfl
    · obtain rfl | rfl : name = "Code" ∨ name = "Page" := by simpa using hname
      · rfl
      · rfl
    · simp at hname
  have halike := (refuses_alike registry (by decide)).2 hpatterns
  have hinputs := (halike []).2.2 hclosed
  exact ⟨hinputs, fun history => (halike history).1.1 hinputs⟩

end Compiler

end JsonShape
