import JsonShape.Definition
import JsonShape.Node.Normalize
import JsonShape.Node.Render
import JsonShape.TypeDef.Tree

/-!
# Compiling a registry

Compiling a named type documents it and every type that it mentions, directly or not. The types
waiting are a stack; a type is documented once, so types that mention one another do no harm.

* `Compiler.fragment` documents one type.
* `Compiler.turn` documents the next type that waits, `Compiler.run` all of them. Each turn finishes
  one more type of the registry.
* `Compiler.add` documents a type and those it mentions, or leaves the compiler as it was if one is
  unknown; `Compiler.addType` is the compiler afterwards, if there is no error.
* `Compiler.schemas` lists the documented types under the names of their components.
-/

namespace JsonShape

/-- A compilation. -/
structure Compiler where
  /-- The types waiting, the one to be taken next in front. -/
  pending : List String
  /-- The types documented so far, in the order in which they were finished. -/
  finished : Dict Json

namespace Compiler

/-- A compiler that has documented nothing. -/
def new : Compiler := ⟨[], []⟩

/-- Whether a type has been documented. -/
def isFinished (c : Compiler) (name : String) : Bool := c.finished.contains name

/-- The tree of a type of the registry. -/
def parse (registry : Registry) (name : String) : Except DefinitionError TypeDef.Tree :=
  match registry.get? name with
  | some d => .ok (d.rootTree name)
  | none => .error (.unknownType name)

/-- The fragment of a tree: its normal form, with references to components, as `Node.render` writes
it. -/
def fragment (n : Node) : Json := n.normalize.renameRefs.render

/-- Lets a type wait, unless it does so or is documented. -/
def enqueue (c : Compiler) (name : String) : Compiler :=
  if c.isFinished name || c.pending.contains name then c
  else { c with pending := name :: c.pending }

/-- Notes the fragment of a type. -/
def finish (c : Compiler) (name : String) (fragment : Json) : Compiler :=
  { c with finished := c.finished.insert name fragment }

/-- Documents one type, and lets those wait that it mentions. -/
def compileOne (registry : Registry) (c : Compiler) (name : String) :
    Except DefinitionError Unit × Compiler :=
  match parse registry name with
  | .error e => (.error e, c)
  | .ok t => (.ok (), (t.found.foldl enqueue c).finish name (fragment t.node))

/-- Documents the next type that waits and is not documented, if there is one. A `run` takes
turns. -/
def turn (registry : Registry) (c : Compiler) : Option (Except DefinitionError Unit × Compiler) :=
  match c.pending.dropWhile c.isFinished with
  | [] => none
  | name :: rest => some (compileOne registry { c with pending := rest } name)

/-- How many types of the registry are not documented. -/
def unfinished (registry : Registry) (c : Compiler) : Nat :=
  (registry.names.filter fun n => !c.isFinished n).length

/-! ## Each turn finishes a type -/

@[simp] theorem isFinished_finish (c : Compiler) (name k : String) (f : Json) :
    (c.finish name f).isFinished k = (decide (name = k) || c.isFinished k) := by
  by_cases h : name = k <;> simp [isFinished, finish, Dict.contains, Dict.get?_insert, h]

theorem finished_enqueue (c : Compiler) (name : String) :
    (c.enqueue name).finished = c.finished := by
  unfold enqueue
  split <;> rfl

theorem finished_foldl_enqueue (names : List String) (c : Compiler) :
    (names.foldl enqueue c).finished = c.finished := by
  induction names generalizing c with
  | nil => rfl
  | cons n rest ih => rw [List.foldl_cons, ih, finished_enqueue]

/-- Everything that a turn without an error does. -/
theorem turn_cases {registry : Registry} {c c' : Compiler}
    (h : turn registry c = some (.ok (), c')) :
    ∃ name rest d, c.pending.dropWhile c.isFinished = name :: rest ∧
      c.isFinished name = false ∧ registry.get? name = some d ∧
      c' = ((d.rootTree name).found.foldl enqueue { c with pending := rest }).finish name
        (fragment (d.rootTree name).node) := by
  unfold turn at h
  split at h
  · simp at h
  · next name rest hp =>
    have hf : c.isFinished name = false := by
      have := List.head?_dropWhile_not c.isFinished c.pending
      simpa [hp] using this
    unfold compileOne parse at h
    cases hd : registry.get? name with
    | none => simp [hd] at h
    | some d =>
      simp only [hd, Option.some.injEq, Prod.mk.injEq, true_and] at h
      exact ⟨name, rest, d, hp, hf, hd, h.symm⟩

theorem length_filter_finish_le (c : Compiler) (name : String) (f : Json) (names : List String) :
    (names.filter fun n => !(c.finish name f).isFinished n).length ≤
      (names.filter fun n => !c.isFinished n).length := by
  induction names with
  | nil => simp
  | cons n rest ih =>
    rw [List.filter_cons, List.filter_cons, isFinished_finish]
    cases c.isFinished n <;> cases decide (name = n) <;> simp at ih ⊢ <;> omega

theorem length_filter_finish_lt {c : Compiler} {name : String} {names : List String}
    (hmem : name ∈ names) (hf : c.isFinished name = false) (f : Json) :
    (names.filter fun n => !(c.finish name f).isFinished n).length <
      (names.filter fun n => !c.isFinished n).length := by
  induction names with
  | nil => simp at hmem
  | cons n rest ih =>
    have hle := length_filter_finish_le c name f rest
    rw [List.filter_cons, List.filter_cons, isFinished_finish]
    by_cases h : name = n
    · subst h
      simp [hf] at hle ⊢
      omega
    · have := ih ((List.mem_cons.1 hmem).resolve_left h)
      cases c.isFinished n <;> simp [h] at this ⊢ <;> omega

/-- A turn leaves fewer types of the registry to be documented. -/
theorem unfinished_turn_lt {registry : Registry} {c c' : Compiler}
    (h : turn registry c = some (.ok (), c')) : unfinished registry c' < unfinished registry c := by
  obtain ⟨name, rest, d, -, hf, hd, rfl⟩ := turn_cases h
  have hmem : name ∈ registry.names := Decidable.byContradiction fun hn => by
    rw [← Dict.get?_eq_none_iff, hd] at hn
    exact absurd hn (by simp)
  have hlt := length_filter_finish_lt hmem hf (fragment (d.rootTree name).node)
  simpa only [unfinished, isFinished, finish, finished_foldl_enqueue] using hlt

/-! ## The work list -/

/-- Documents the types that wait and those they mention, until none waits or one is unknown. -/
def run (registry : Registry) (c : Compiler) : Except DefinitionError Unit × Compiler :=
  match _h : turn registry c with
  | none => (.ok (), { c with pending := [] })
  | some (.error e, c') => (.error e, c')
  | some (.ok (), c') => run registry c'
termination_by unfinished registry c
decreasing_by exact unfinished_turn_lt _h

/-- Documents the type `name` and those it mentions. On an error the compiler is put back to what it
was. -/
def add (registry : Registry) (c : Compiler) (name : String) :
    Except DefinitionError Unit × Compiler :=
  match run registry (c.enqueue name) with
  | (.ok (), done) => (.ok (), done)
  | (.error e, _) => (.error e, c)

/-- The compiler that has documented a type and those it mentions. -/
def addType (registry : Registry) (c : Compiler) (name : String) :
    Except DefinitionError Compiler :=
  (add registry c name).1.map fun _ => (add registry c name).2

/-- The documented types by the names of their components, sorted. Of two types with one `safeName`,
the one that was finished last is listed. -/
def schemas (c : Compiler) : Dict Json :=
  Dict.sortByName (Dict.ofList (c.finished.map fun e => (TypeName.safeName e.1, e.2)))

end Compiler

end JsonShape
