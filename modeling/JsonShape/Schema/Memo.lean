import JsonShape.Schema.Parameter

/-!
# Producers that remember

What documentation finds are producers of further documentation. A function `produce` says what each
source documents. A producer is a cell of a store: it is run on first use and remembers what it has
produced, and what it produces has producers of its own, which are made with it.

* `Memo.load` makes the producers that some documentation finds, and `Memo.force` runs one.
* `Memo.collect` and `Memo.parameters` answer components and parameters by such producers.
-/

namespace JsonShape

namespace Memo

variable {α : Type}

/-- A producer: its source, and what it has produced. -/
structure Cell (α : Type) where
  source : α
  produced : Option (Doc Nat)

/-- The producers made so far, and which of them have been run, the last one in front. -/
structure Store (α : Type) where
  cells : Array (Cell α)
  log : List Nat

namespace Store

/-- No producers. -/
def empty : Store α := ⟨#[], []⟩

/-- Keeps what the producer `id` has produced, and notes in the log that it has been run. -/
def remember (s : Store α) (id : Nat) (doc : Doc Nat) : Store α :=
  ⟨s.cells.modify id fun c => { c with produced := some doc }, id :: s.log⟩

end Store

/-- Computations with producers of sources in `α`. -/
abbrev MemoM (α : Type) := StateM (Store α)

/-- Makes a producer of a source. -/
def make (source : α) : MemoM α Nat := fun s =>
  (s.cells.size, { s with cells := s.cells.push ⟨source, none⟩ })

/-- Makes a producer of each source, in their order. -/
def makeAll : Dict α → MemoM α (Dict Nat)
  | [] => pure []
  | (name, source) :: rest => do
    let id ← make source
    let made ← makeAll rest
    pure ((name, id) :: made)

/-- The documentation `doc`, with producers made of what it finds. -/
def load (doc : Doc α) : MemoM α (Doc Nat) := do
  let found ← makeAll doc.found
  pure ⟨doc.fragment, found⟩

/-- The documentation of a producer, which is run on first use. -/
def force (produce : α → Doc α) (id : Nat) : MemoM α (Doc Nat) := do
  match (← get).cells[id]? with
  | some ⟨_, some doc⟩ => pure doc
  | some ⟨source, none⟩ => do
    let doc ← load (produce source)
    modify fun s => s.remember id doc
    pure doc
  | none => pure (.plain .null)

/-- Whether a producer has been run. -/
def isForced (id : Nat) : MemoM α Bool := do
  pure (((← get).cells[id]?.bind Cell.produced).isSome)

/-- The components that some documentation mentions, directly or not, sorted by name, if there are
at most `steps`. -/
def collect (produce : α → Doc α) (steps : Nat) (docs : List (Doc Nat)) :
    MemoM α (Option (Dict Json)) :=
  Components.collect (force produce) steps docs

/-- The parameters of some documentation; its components are produced within `steps` steps. -/
def parameters (produce : α → Doc α) (steps : Nat) (doc : Doc Nat) (location : Location) :
    MemoM α (Except ParameterError (List Parameter)) :=
  Parameter.ofDoc (force produce) steps doc location

end Memo

end JsonShape
