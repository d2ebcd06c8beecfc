import JsonShape.Schema.Doc

/-!
# Collecting components

Starting from the components that some documentation mentions, each component is produced, written
down and searched for further ones. The components written down double as the set of visited names,
so components that mention one another are produced once each.

* `Components.collect` answers the components sorted by name.
* `Components.reachable` answers their documentation in the order in which they were produced.
* `Components.document` is the document that lists them.

Producing may have effects, in any monad `m`. The components waiting are a stack, the one found
last in front.
-/

namespace JsonShape

namespace Components

variable {α : Type} {m : Type → Type} [Monad m]

/-- Puts the components of `more` that are not waiting yet on the stack. -/
def push (waiting more : Dict α) : Dict α :=
  more.foldl (fun acc e => if acc.contains e.1 then acc else e :: acc) waiting

/-- Produces the components that wait and those they mention, at most `steps` of them; `none` if
some are left. -/
def collectFrom (force : α → m (Doc α)) :
    (steps : Nat) → (waiting : Dict α) → (finished : Dict Json) → m (Option (Dict Json))
  | _, [], finished => pure (some finished)
  | 0, _ :: _, _ => pure none
  | steps + 1, (name, producer) :: waiting, finished =>
    if finished.contains name then collectFrom force steps waiting finished
    else do
      let doc ← force producer
      let new := doc.found.filter fun e => !finished.contains e.1 && e.1 ≠ name
      collectFrom force steps (push waiting new) (finished.insert name doc.fragment)

/-- Every component reachable from the roots, sorted by name, if there are at most `steps`. -/
def collect (force : α → m (Doc α)) (steps : Nat) (roots : List (Doc α)) :
    m (Option (Dict Json)) := do
  let components ← collectFrom force steps (roots.foldl (fun acc d => push acc d.found) []) []
  pure (components.map Dict.sortByName)

/-- Produces the components on a stack on which a name may stand more than once: the first one
taken counts. Stops after `steps` of them. -/
def reachableFrom (force : α → m (Doc α)) :
    (steps : Nat) → (waiting : Dict α) → (finished : Dict (Doc α)) → m (Dict (Doc α))
  | _, [], finished => pure finished
  | 0, _ :: _, finished => pure finished
  | steps + 1, (name, producer) :: waiting, finished =>
    if finished.contains name then reachableFrom force steps waiting finished
    else do
      let doc ← force producer
      let new := doc.found.filter fun e => !finished.contains e.1
      reachableFrom force steps (new.reverse ++ waiting) (finished.insert name doc)

/-- The documentation of every component reachable from those found, within `steps` steps. -/
def reachable (force : α → m (Doc α)) (steps : Nat) (found : Dict α) : m (Dict (Doc α)) :=
  reachableFrom force steps found.reverse []

/-- The document that lists components. -/
def document (components : Dict Json) : Json :=
  .object [("components", .object [("schemas", .object components)])]

end Components

end JsonShape
