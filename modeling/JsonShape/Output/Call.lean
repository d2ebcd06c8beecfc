import JsonShape.Checked
import JsonShape.Output.View

/-!
# Writing values

An output writes a value in two ways: `Output.call` writes it unchecked, and `Output.report` answers
either what is written or a report of everything in the value that does not fit.

* `Output.callWith` and `Output.reportWith` are the meaning of the shapes, given that of deferred
  definitions.
* `Output.callAt` and `Output.reportAt` look definitions up, as many times inside one another as a
  number says.

Both answer `none` where definitions lead back to themselves. Functions may make greater values of
smaller ones, so the depth of a value does not bound the lookups, and a fixed limit does: a program
would go on until its stack is full, and `deepest` stands for that. A greater limit answers all that
a smaller one does (`Output.callAt_le`, `Output.reportAt_le`), and what is said of writing is said
of every limit, or of `Output.Writes` and `Output.Reports`, which have none.
-/

namespace JsonShape

namespace Output

/-! ## Unchecked -/

mutual

/-- Writes a value under a requested view, where `deferred` says what lookups of definitions
mean. -/
def callWith
    (deferred : (name : String) → (base : Bool) → (view : Option String) → Json → Option Json) :
    Output → (view : Option String) → Json → Option Json
  | .text _, _, v | .number, _, v | .integer, _, v | .boolean, _, v => some v
  | .null, _, _ => some .null
  | .object properties, _, v => do
    let declared := Member.distinct (callProperties deferred properties v)
    let members ← declared.mapM fun m => m.value.map fun w => (m.key, w)
    some (.object (members.filterMap fun m => m.2.map fun w => (m.1, w)))
  | .merge parent child, view, v => do
    let p ← callWith deferred parent view v
    let c ← callWith deferred child view v
    some (p.merge c)
  | .list item, view, .array xs => (xs.mapM (callWith deferred item view)).map .array
  | .list _, _, v => some v
  | .optional _, _, .null => some .null
  | .optional inner, view, v => callWith deferred inner view v
  | .described inner _, view, v => callWith deferred inner view v
  | .referenced inner _, view, v => callWith deferred inner view v
  | .viaMap inner f, view, v => callWith deferred inner view (f v)
  | .viewed earlier base later, view, v =>
    let name := view.getD baseView
    if name = baseView then callWith deferred base view v
    else
      match callView deferred earlier name view v with
      | some result => result
      | none =>
        match callView deferred later name view v with
        | some result => result
        | none => callWith deferred base view v
  | .cond test holds otherwise, view, v =>
    if test v view then callWith deferred holds view v else callWith deferred otherwise view v
  | .chain base views, view, v =>
    match view with
    | none => callWith deferred base view v
    | some name =>
      match callView deferred views name view v with
      | some result => result
      | none => callWith deferred base view v
  | .defer name base, view, v => deferred name base view v

/-- What the properties of an object write, declaration by declaration. An optional one that is null
is left out. -/
def callProperties
    (deferred : (name : String) → (base : Bool) → (view : Option String) → Json → Option Json) :
    List (Property Output) → Json → List (Member (Option (Option Json)))
  | [], _ => []
  | ⟨key, extract, value, required, description⟩ :: rest, v =>
    let part := match extract with
      | some f => f v
      | none => v
    let written :=
      if part.isNull && !required then some none
      else (callWith deferred value none part).map some
    ⟨key, written, required, description⟩ :: callProperties deferred rest v

/-- What the first view of this name writes, if there is one. -/
def callView
    (deferred : (name : String) → (base : Bool) → (view : Option String) → Json → Option Json) :
    List (String × Output) → (name : String) → (view : Option String) → Json →
    Option (Option Json)
  | [], _, _, _ => none
  | (n, o) :: rest, name, view, v =>
    if n = name then some (callWith deferred o view v) else callView deferred rest name view v

end

/-- Writes a value, looking definitions up at most `limit` times inside one another. -/
def callAt (defs : Dict Output) :
    (limit : Nat) → Output → (view : Option String) → Json → Option Json
  | 0 => callWith fun _ _ _ _ => none
  | limit + 1 => callWith fun name base view v => do
    let o ← resolve? defs name base
    callAt defs limit o view v

/-- How often definitions may be looked up inside one another: `call` and `report` stop there, where
a program would run out of stack at some depth. What is written within a greater limit is written
within every limit above (`callAt_le`). -/
def deepest : Nat := 10000

/-- Writes a value, with at most `deepest` lookups inside one another. -/
def call (defs : Dict Output) (o : Output) (view : Option String) (v : Json) : Option Json :=
  callAt defs deepest o view v

/-! ## Checked -/

mutual

/-- Checks and writes a value under a requested view, where `deferred` says what lookups of
definitions mean. -/
def reportWith
    (deferred : (name : String) → (base : Bool) → (view : Option String) → Json → Option Checked) :
    Output → (view : Option String) → Json → Option Checked
  | .text _, _, v => some (Checked.check v.isString "must be a string" v)
  | .number, _, v => some (Checked.check v.isNumber "must be a number" v)
  | .integer, _, v => some (Checked.check v.isInteger "must be an integer" v)
  | .boolean, _, v => some (Checked.check v.isBoolean "must be a boolean" v)
  | .null, _, v => some (Checked.check v.isNull "must be null" v)
  | .object properties, _, v => do
    let declared := Member.distinct (reportProperties deferred properties v)
    let results ← declared.mapM fun m => m.value.map fun r => (m.key, r)
    some (Checked.ofMembers results)
  | .merge parent child, view, v => do
    let p ← reportWith deferred parent view v
    let c ← reportWith deferred child view v
    some (Checked.merge p c)
  | .list item, view, .array xs => (xs.mapM (reportWith deferred item view)).map Checked.ofItems
  | .list _, _, _ => some (.error (.message "must be an array"))
  | .optional _, _, .null => some (.ok .null)
  | .optional inner, view, v => reportWith deferred inner view v
  | .described inner _, view, v => reportWith deferred inner view v
  | .referenced inner _, view, v => reportWith deferred inner view v
  | .viaMap inner f, view, v => reportWith deferred inner view (f v)
  | .viewed earlier base later, view, v =>
    let name := view.getD baseView
    if name = baseView then reportWith deferred base view v
    else
      match reportView deferred earlier name view v with
      | some result => result
      | none =>
        match reportView deferred later name view v with
        | some result => result
        | none => reportWith deferred base view v
  | .cond test holds otherwise, view, v =>
    if test v view then reportWith deferred holds view v else reportWith deferred otherwise view v
  | .chain base views, view, v =>
    match view with
    | none => reportWith deferred base view v
    | some name =>
      match reportView deferred views name view v with
      | some result => result
      | none => reportWith deferred base view v
  | .defer name base, view, v => deferred name base view v

/-- The results for the properties of an object, declaration by declaration. One that is null is
absent. -/
def reportProperties
    (deferred : (name : String) → (base : Bool) → (view : Option String) → Json → Option Checked) :
    List (Property Output) → Json → List (Member (Option (Except Report (Option Json))))
  | [], _ => []
  | ⟨key, extract, value, required, description⟩ :: rest, v =>
    let part := match extract with
      | some f => f v
      | none => v
    let result :=
      if part.isNull then some (Checked.absent required)
      else (reportWith deferred value none part).map (Except.map some)
    ⟨key, result, required, description⟩ :: reportProperties deferred rest v

/-- The result of the first view of this name, if there is one. -/
def reportView
    (deferred : (name : String) → (base : Bool) → (view : Option String) → Json → Option Checked) :
    List (String × Output) → (name : String) → (view : Option String) → Json →
    Option (Option Checked)
  | [], _, _, _ => none
  | (n, o) :: rest, name, view, v =>
    if n = name then some (reportWith deferred o view v) else reportView deferred rest name view v

end

/-- Checks and writes a value, looking definitions up at most `limit` times inside one another. -/
def reportAt (defs : Dict Output) :
    (limit : Nat) → Output → (view : Option String) → Json → Option Checked
  | 0 => reportWith fun _ _ _ _ => none
  | limit + 1 => reportWith fun name base view v => do
    let o ← resolve? defs name base
    reportAt defs limit o view v

/-- Checks and writes a value, with at most `deepest` lookups inside one another. -/
def report (defs : Dict Output) (o : Output) (view : Option String) (v : Json) : Option Checked :=
  reportAt defs deepest o view v

end Output

end JsonShape
