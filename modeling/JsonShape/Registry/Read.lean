import JsonShape.Json.Reader
import JsonShape.TypeDef.Decode

/-!
# Reading a registry

A registry is read from the text of a JSON object, type by type, and reading stops at the first
error. A description is read as far as its closing bracket before its fields are looked at, so an
error in a field has the place of the whole description, and a kind is looked at where it stands.
Text behind the registry is not read.

* `Registry.ofBytes` and `Registry.ofString` read a text.
* `RegistryFault.sentence` says what is wrong and where, `RegistryFault.fullSentence` also at which
  line and column.
-/

namespace JsonShape

/-- What is wrong with the text of a registry. -/
inductive RegistryFault.Cause
  /-- The text is no JSON. -/
  | malformed (e : Json.SyntaxError)
  /-- The JSON is no registry. -/
  | misfit (e : Decode.DecodeError)

/-- A text that is no registry. -/
structure RegistryFault where
  path : Json.Path
  cause : RegistryFault.Cause
  position : Json.Position

namespace RegistryFault

/-- The wording of a cause. -/
def Cause.message : Cause → String
  | malformed e => e.message
  | misfit e => e.message

/-- What is wrong, and where in the document. -/
def sentence (f : RegistryFault) : String := Decode.sentence f.path f.cause.message

/-- What is wrong, and where in the document and in the text. -/
def fullSentence (f : RegistryFault) : String :=
  f.sentence ++ " at line " ++ Number.intText f.position.line ++ " column " ++
    Number.intText f.position.column

/-- A fault of the text itself. -/
def ofFault (f : Json.Fault) : RegistryFault := ⟨f.path, .malformed f.cause, f.position⟩

end RegistryFault

namespace Registry

open Json Decode

/-- A token reader's answer at a path. -/
def token {α : Type} (path : Json.Path) (r : Scan α) : Except RegistryFault (α × Cursor) :=
  (at_ path r).mapError .ofFault

/-- Any value at a path. -/
def value (depth : Nat) (path : Json.Path) (c : Cursor) : Except RegistryFault (Json × Cursor) :=
  (readRaw depth path c).mapError .ofFault

/-- Refuses what stands at a path, at what has been read. -/
def refuse {α : Type} (path : Json.Path) (e : DecodeError) (c : Cursor) : Except RegistryFault α :=
  .error ⟨path.reverse, .misfit e, c.here⟩

/-- The cursor behind the closing brace, where it comes next. -/
def closeObject (c : Cursor) : Cursor :=
  let c := c.skipBlanks
  if c.peek? = some 125 then c.skip else c

/-- The cursor behind the closing bracket or a comma, where one comes next. -/
def closeArray (c : Cursor) : Cursor :=
  let c := c.skipBlanks
  match c.peek? with
  | some 93 => c.skip
  | some 44 => c.skip.skipBlanks
  | _ => c

/-- Refuses a value that is not of the expected type. An array or object is refused at its opening
bracket, any other value behind its last character. -/
def refuseValue {α : Type} (path : Json.Path) (expected : String) (c : Cursor) :
    Except RegistryFault α :=
  match c.peek? with
  | some 91 => refuse path (.invalidType .sequence expected) c
  | some 123 => refuse path (.invalidType .map expected) c
  | _ => do
    let (v, c) ← value 2 path c
    refuse path (.invalidType (.ofJson v) expected) c

/-- The kind of a description. -/
def readKind (path : Json.Path) (c : Cursor) : Except RegistryFault (TypeDef.Kind × Cursor) := do
  let c := c.skipBlanks
  match c.peek? with
  | some 34 =>
    let (name, c) ← token path (readString c.skip)
    match TypeDef.Kind.ofTag name with
    | .ok kind => .ok (kind, c)
    | .error e => refuse path e c
  | _ => refuseValue path TypeDef.Kind.expected c

/-- The members of a description up to its closing brace: the kind, and those that are fields. -/
def readTagged (depth : Nat) (path : Json.Path) :
    (fuel : Nat) → (first : Bool) → (kind : Option TypeDef.Kind) → Cursor →
    Except RegistryFault ((TypeDef.Kind × List (String × Json)) × Cursor)
  | 0, _, _, c => token path (failAhead c .tooDeep)
  | fuel + 1, first, kind, c => do
    let (name, c) ← token (.unknown :: path) (nextName first c)
    match name with
    | none =>
      match kind with
      | some kind => .ok ((kind, []), c.skip)
      | none => refuse path (.missingField TypeDef.kindKey) (closeObject c)
    | some name =>
      if name = TypeDef.kindKey then
        match kind with
        | some _ => refuse path (.duplicateField TypeDef.kindKey) (closeObject c)
        | none =>
          let (_, c) ← token path (readColon c)
          let (kind, c) ← readKind (.key name :: path) c
          readTagged depth path fuel false (some kind) c
      else
        let (_, c) ← token path (readColon c)
        let (v, c) ← value depth (.key name :: path) c
        let ((kind, fields), c) ← readTagged depth path fuel false kind c
        .ok ((kind, (name, v) :: fields), c)

/-- The items of a description up to its closing bracket: the kind, and the fields in order. -/
def readTaggedItems (depth : Nat) (path : Json.Path) (c : Cursor) :
    Except RegistryFault ((TypeDef.Kind × List Json) × Cursor) := do
  let (more, c) ← token path (moreItems true c)
  if more then
    let (kind, c) ← readKind (.index 0 :: path) c
    let (items, c) ← (readItems (2 * c.rest.length + 2) depth path 1 c).mapError .ofFault
    .ok ((kind, items), c.skip)
  else refuse path (.missingField TypeDef.kindKey) (closeArray c)

/-- A description, but for its fields, which are read as they are and decoded by
`TypeDef.ofContent`. -/
def readDescription (depth : Nat) (path : Json.Path) (c : Cursor) :
    Except RegistryFault ((TypeDef.Kind × Json) × Cursor) := do
  let c := c.skipBlanks
  match c.peek? with
  | none => token path (failAhead c .endInValue)
  | some 123 =>
    if depth ≤ 1 then token path (failAhead c .tooDeep)
    else
      let ((kind, fields), c) ← readTagged (depth - 1) path (c.rest.length + 1) true none c.skip
      .ok ((kind, .object fields), c)
  | some 91 =>
    if depth ≤ 1 then token path (failAhead c .tooDeep)
    else
      let ((kind, items), c) ← readTaggedItems (depth - 1) path c.skip
      .ok ((kind, .array items), c)
  | some _ =>
    let (v, c) ← value depth path c
    refuse path (.invalidType (.ofJson v) TypeDef.expectedDescription) c

/-- The types of a registry up to its closing brace. -/
def readEntries (depth : Nat) :
    (fuel : Nat) → (first : Bool) → (read : Registry) → Cursor → Except RegistryFault Registry
  | 0, _, _, c => .error ⟨[], .malformed .tooDeep, c.here⟩
  | fuel + 1, first, read, c => do
    let (name, c) ← token [.unknown] (nextName first c)
    match name with
    | none => .ok read
    | some name =>
      let (_, c) ← token [] (readColon c)
      let ((kind, content), c) ← readDescription depth [.key name] c
      match TypeDef.ofContent kind content with
      | .ok d => readEntries depth fuel false (Dict.insert read name d) c
      | .error e => refuse [.key name] e (closeObject c)

/-- Reads a registry at the start of a text, type by type. What stands behind it is not looked at.
The result is that of `Json.readRaw` and `Registry.ofJson`, one after the other (`ofBytes_eq`). -/
def ofBytes (bytes : List UInt8) : Except RegistryFault Registry :=
  let c := (Cursor.ofBytes bytes).skipBlanks
  match c.peek? with
  | some 123 => readEntries (defaultDepth - 1) (c.rest.length + 1) true [] c.skip
  | none => .error ⟨[], .malformed .endInValue, c.ahead⟩
  | some _ => refuseValue [] "a map" c

/-- Reads a registry at the start of a text of characters. -/
def ofString (s : String) : Except RegistryFault Registry := ofBytes s.toUTF8.toList

end Registry

end JsonShape
