import JsonShape.Output.Basic

/-!
# Views of outputs

* `Output.viewNames` lists the views of an output, sorted.
* `Output.viewOf?` selects one of them; lists, optional and mapped outputs keep their wrapping
  around the selected view.
* `Output.view` also answers to `base` where an output has no view of that name: there it is the
  output itself.
* `Output.resolve?` looks a deferred definition up.
-/

namespace JsonShape

namespace Output

/-! ## Selection -/

/-- The view of this name, where `deferred` says what the views of definitions are. -/
def viewWith (deferred : (name : String) → (base : Bool) → (view : String) → Option Output) :
    Output → (view : String) → Option Output
  | .merge _ child, view => viewWith deferred child view
  | .list item, view => (viewWith deferred item view).map .list
  | .optional inner, view => (viewWith deferred inner view).map .optional
  | .viaMap inner f, view => (viewWith deferred inner view).map (.viaMap · f)
  | .described inner _, view => viewWith deferred inner view
  | .referenced inner _, view => viewWith deferred inner view
  | .viewed earlier base later, view =>
    if view = baseView then some base else Dict.get? (earlier ++ later) view
  | .chain base views, view => if view = baseView then some base else Dict.get? views view
  | .defer name base, view => deferred name base view
  | _, _ => none

/-- The view of this name, looking definitions up at most `limit` times inside one another. -/
def viewAt (defs : Dict Output) : (limit : Nat) → Output → (view : String) → Option Output
  | 0 => viewWith fun _ _ _ => none
  | limit + 1 => viewWith fun name base view => do
    let o ← defs.get? name
    viewAt defs limit (if base then (viewAt defs limit o baseView).getD o else o) view

/-- How often definitions can be looked up inside one another before one comes back to itself: each
one as a whole and as its default view, for a requested and for the default view. -/
def lookupLimit (defs : Dict Output) : Nat := 4 * defs.length

/-- The view of this name. -/
def viewOf? (defs : Dict Output) (o : Output) (view : String) : Option Output :=
  viewAt defs (lookupLimit defs) o view

/-- The default view. -/
def baseOf (defs : Dict Output) (o : Output) : Output := (viewOf? defs o baseView).getD o

/-- The selected view. The default view is there always, if only as `o` itself. -/
def view (defs : Dict Output) (o : Output) (name : String) : Except DefinitionError Output :=
  match viewOf? defs o name with
  | some selected => .ok selected
  | none => if name = baseView then .ok o else .error (.unknownView name)

/-- The definition of this name, or its default view if `base` says so. -/
def resolve? (defs : Dict Output) (name : String) (base : Bool) : Option Output :=
  (defs.get? name).map fun o => if base then baseOf defs o else o

/-! ## Names -/

/-- Adds a name to a sorted list. -/
def insertName (name : String) : List String → List String
  | [] => [name]
  | n :: rest =>
    if name < n then name :: n :: rest
    else if name = n then n :: rest
    else n :: insertName name rest

/-- Adds names to a sorted list. -/
def insertNames (names sorted : List String) : List String :=
  names.foldl (fun s n => insertName n s) sorted

/-- The names of the views, given those of deferred definitions. -/
def viewNamesWith (deferred : (name : String) → (base : Bool) → List String) :
    Output → List String
  | .merge _ child => viewNamesWith deferred child
  | .list inner | .optional inner | .described inner _ | .referenced inner _ | .viaMap inner _ =>
    viewNamesWith deferred inner
  | .viewed earlier _ later => insertNames (Dict.names earlier ++ baseView :: Dict.names later) []
  | .cond _ holds otherwise =>
    insertNames (viewNamesWith deferred otherwise) (viewNamesWith deferred holds)
  | .chain _ views => insertNames (baseView :: Dict.names views) []
  | .defer name base => deferred name base
  | _ => []

/-- The names of the views, looking definitions up at most `limit` times inside one another. -/
def viewNamesAt (defs : Dict Output) : (limit : Nat) → Output → List String
  | 0 => viewNamesWith fun _ _ => []
  | limit + 1 => viewNamesWith fun name base =>
    match resolve? defs name base with
    | some o => viewNamesAt defs limit o
    | none => []

/-- The names of the views, sorted. -/
def viewNames (defs : Dict Output) (o : Output) : List String :=
  viewNamesAt defs (lookupLimit defs) o

end Output

end JsonShape
