import JsonShape.Decode.Error
import JsonShape.TypeDef.Basic

/-!
# Reading type descriptions

A description is an object whose member `kind` names the kind of type and whose other members are
the fields of that kind; unknown members are ignored. It may also be an array that starts with the
kind and holds the fields in order. Within a description the kind may be given by its number.

* `Decode.record` reads the fields of a record from either form.
* `TypeDef.Kind` lists the kinds and `TypeDef.Kind.form` their fields.
* `TypeDef.decode` reads a description from a value in which a member may be repeated, and answers
  the first error in the order of the text.
* `TypeDef.ofJson` reads one from a JSON value and says which part of it has the error;
  `Registry.ofJson` reads a registry so.
-/

namespace JsonShape

namespace TypeDef

open Decode

/-- What reading a part answers. The place of an error is not kept. -/
abbrev Read (α : Type) := Except DecodeError α

/-- A field that has been read. -/
inductive Part
  | type (d : TypeDef)
  | keys (ks : List (Member TypeDef))
  | rules (rs : List Constraint)
  | values (vs : List Literal)
  | scalar (s : Scalar)
  | text (s : String)
  | flag (b : Bool)
  | remark (text : Option String)

/-- A record: what it is called in errors, and its fields, with what stands for an absent one that
may be absent. -/
structure Form where
  title : String
  fields : List (String × Option Part)

namespace Form

/-- How an array of the wrong length differs from the record. -/
def expectedLength (f : Form) : String :=
  f.title ++ " with " ++ Number.intText f.fields.length ++
    (if f.fields.length = 1 then " element" else " elements")

/-- How many items the record would take of an array. -/
def expectedInSequence (f : Form) : String :=
  Number.intText f.fields.length ++
    (if f.fields.length = 1 then " element in sequence" else " elements in sequence")

/-- Adds what stands for absent fields. -/
def complete (parts : Dict Part) : List (String × Option Part) → Read (Dict Part)
  | [] => .ok parts
  | (name, absent) :: rest =>
    if parts.contains name then complete parts rest
    else
      match absent with
      | some part => complete (parts ++ [(name, part)]) rest
      | none => .error (.missingField name)

/-- Reads members in their order. A field may stand once; other members are passed over. -/
def ofMembers (f : Form) (read : String → Json → Read Part) :
    (parts : Dict Part) → List (String × Json) → Read (Dict Part)
  | parts, [] => complete parts f.fields
  | parts, (name, v) :: rest =>
    if !Dict.contains f.fields name then ofMembers f read parts rest
    else if parts.contains name then .error (.duplicateField name)
    else do
      let part ← read name v
      ofMembers f read (parts ++ [(name, part)]) rest

/-- Reads the items of an array as fields in order, from index `i` on. -/
def ofItemsFrom (f : Form) (read : String → Json → Read Part) :
    (i : Nat) → List (String × Option Part) → List Json → Read (Dict Part)
  | _, [], [] => .ok []
  | i, [], extra => .error (.invalidLength (i + extra.length) f.expectedInSequence)
  | i, (name, absent) :: rest, [] =>
    match absent with
    | some part => (ofItemsFrom f read (i + 1) rest []).map ((name, part) :: ·)
    | none => .error (.invalidLength i f.expectedLength)
  | i, (name, _) :: rest, v :: vs => do
    let part ← read name v
    let more ← ofItemsFrom f read (i + 1) rest vs
    .ok ((name, part) :: more)

/-- Reads an array as the record. -/
def ofItems (f : Form) (read : String → Json → Read Part) (xs : List Json) : Read (Dict Part) :=
  ofItemsFrom f read 0 f.fields xs

/-- Reads a value as the record. -/
def decode (f : Form) (read : String → Json → Read Part) : Json → Read (Dict Part)
  | .object ms => f.ofMembers read [] ms
  | .array xs => f.ofItems read xs
  | v => .error (.invalidType (.ofJson v) f.title)

end Form

/-! ## Fields -/

/-- Refuses a value for its type. -/
def refuse {α : Type} (v : Json) (expected : String) : Read α :=
  .error (.invalidType (.ofJson v) expected)

/-- A text. -/
def readText : Json → Read String
  | .string s => .ok s
  | v => refuse v "a string"

/-- A flag. -/
def readFlag : Json → Read Bool
  | .bool b => .ok b
  | v => refuse v "a boolean"

/-- A floating-point number, given by a number of any kind. -/
def readNumber (v : Json) : Read Binary64 :=
  match v with
  | .number n =>
    match n.toBinary64? with
    | some x => .ok x
    | none => refuse v "f64"
  | v => refuse v "f64"

/-- A list. -/
def readList {α : Type} (item : Json → Read α) : Json → Read (List α)
  | .array xs => xs.mapM item
  | v => refuse v "a sequence"

/-- A member of an enumeration. -/
def readLiteral (v : Json) : Read Literal :=
  match Literal.ofJson? v with
  | some l => .ok l
  | none => .error (.noAlternative "Literal")

/-- An alternative by its name, alone or with content. -/
def readAlternative : Json → Read (String × Option Json)
  | .string name => .ok (name, none)
  | .object [(name, content)] => .ok (name, some content)
  | .object _ => .error (.invalidValue .map "map with a single key")
  | v => refuse v "string or map"

/-- No content, or an empty one. -/
def readNoContent : Option Json → Read Unit
  | none | some .null | some (.object []) => .ok ()
  | some v => refuse v "unit"

/-- A basic type. -/
def readScalar (v : Json) : Read Scalar := do
  let (name, content) ← readAlternative v
  match Scalar.ofTag? name with
  | none => .error (.unknownVariant name (Scalar.all.map Scalar.tag))
  | some s =>
    readNoContent content
    .ok s

/-- The names of rules. -/
def ruleNames : List String :=
  ["pattern", "minimum", "maximum", "exclusive_minimum", "exclusive_maximum", "multiple_of"]

/-- The rule of this name with its argument, if there is such a rule. -/
def ruleNamed (name : String) : Option (Json → Read Constraint) :=
  match name with
  | "pattern" => some fun v => (readText v).map .pattern
  | "minimum" => some fun v => (readNumber v).map .minimum
  | "maximum" => some fun v => (readNumber v).map .maximum
  | "exclusive_minimum" => some fun v => (readNumber v).map .exclusiveMinimum
  | "exclusive_maximum" => some fun v => (readNumber v).map .exclusiveMaximum
  | "multiple_of" => some fun v => (readNumber v).map .multipleOf
  | _ => none

/-- A rule. -/
def readRule (v : Json) : Read Constraint := do
  let (name, content) ← readAlternative v
  match ruleNamed name with
  | none => .error (.unknownVariant name ruleNames)
  | some argument =>
    match content with
    | none => .error (.invalidType .unitVariant "newtype variant")
    | some v => argument v

/-- A remark, which may be null. -/
def readRemark : Json → Read (Option String)
  | .null => .ok none
  | v => (readText v).map some

/-! ## Records -/

/-- The record of a key. -/
def keyForm : Form :=
  ⟨"struct KeyDef",
    [("name", none), ("required", some (.flag true)), ("type", none),
      ("description", some (.remark none))]⟩

/-- The kinds of descriptions. -/
inductive Kind
  | struct
  | sum
  | constrained
  | array
  | enum
  | scalar
  | named
  deriving DecidableEq

namespace Kind

/-- The kinds in their order. -/
def all : List Kind := [struct, sum, constrained, array, enum, scalar, named]

/-- The name of a kind. -/
def tag : Kind → String
  | struct => "struct"
  | sum => "sum"
  | constrained => "constrained"
  | array => "array"
  | enum => "enum"
  | scalar => "scalar"
  | named => "named"

/-- The kind of this name. -/
def ofTag (name : String) : Read Kind :=
  match all.find? fun k => k.tag = name with
  | some k => .ok k
  | none => .error (.unknownVariant name (all.map tag))

/-- The record of the fields of a kind. -/
def form : Kind → Form
  | struct => ⟨"struct variant TypeDef::Struct", [("keys", none)]⟩
  | sum => ⟨"struct variant TypeDef::Sum", [("left", none), ("right", none)]⟩
  | constrained =>
    ⟨"struct variant TypeDef::Constrained", [("base", none), ("rules", some (.rules []))]⟩
  | array => ⟨"struct variant TypeDef::Array", [("member", none)]⟩
  | enum => ⟨"struct variant TypeDef::Enum", [("values", none)]⟩
  | scalar => ⟨"struct variant TypeDef::Scalar", [("scalar", none)]⟩
  | named => ⟨"struct variant TypeDef::Named", [("name", none)]⟩

/-- What a kind is expected to be. -/
def expected : String := "variant identifier"

/-- The kind of a description within another: its name, or its number. -/
def decode : Json → Read Kind
  | .string name => ofTag name
  | .number (.int n) =>
    if n < 0 then refuse (.number (.int n)) expected
    else
      match all[n.toNat]? with
      | some k => .ok k
      | none => .error (.invalidValue (.number (.int n)) "variant index 0 <= i < 7")
  | v => refuse v expected

end Kind

/-- The key that the fields of its record make. -/
def keyOfParts (parts : Dict Part) : Read (Member TypeDef) :=
  match parts.get? "name", parts.get? "type", parts.get? "required", parts.get? "description" with
  | some (.text name), some (.type d), some (.flag required), some (.remark text) =>
    .ok ⟨name, d, required, text⟩
  | _, _, _, _ => .error (.missingField "name")

/-- The description that the fields of its kind make. -/
def ofParts (kind : Kind) (parts : Dict Part) : Read TypeDef :=
  let field := parts.get?
  match kind with
  | .struct =>
    match field "keys" with
    | some (.keys ks) => .ok (.struct ks)
    | _ => .error (.missingField "keys")
  | .sum =>
    match field "left", field "right" with
    | some (.type l), some (.type r) => .ok (.sum l r)
    | _, _ => .error (.missingField "left")
  | .constrained =>
    match field "base", field "rules" with
    | some (.type d), some (.rules rs) => .ok (.constrained d rs)
    | _, _ => .error (.missingField "base")
  | .array =>
    match field "member" with
    | some (.type d) => .ok (.array d)
    | _ => .error (.missingField "member")
  | .enum =>
    match field "values" with
    | some (.values vs) => .ok (.enum vs)
    | _ => .error (.missingField "values")
  | .scalar =>
    match field "scalar" with
    | some (.scalar s) => .ok (.scalar s)
    | _ => .error (.missingField "scalar")
  | .named =>
    match field "name" with
    | some (.text name) => .ok (.named name)
    | _ => .error (.missingField "name")

/-! ## Descriptions -/

/-- What a description is expected to be. -/
def expectedDescription : String := "internally tagged enum TypeDef"

/-- Reads the field `name`, where `inner` reads the descriptions within it. -/
def readPart (inner : Json → Read TypeDef) (name : String) (v : Json) : Read Part :=
  match name with
  | "keys" =>
    let key (v : Json) : Read (Member TypeDef) := do
      let parts ← keyForm.decode (fun name v =>
        match name with
        | "name" => (readText v).map .text
        | "required" => (readFlag v).map .flag
        | "type" => (inner v).map .type
        | _ => (readRemark v).map .remark) v
      keyOfParts parts
    (readList key v).map .keys
  | "rules" => (readList readRule v).map .rules
  | "values" => (readList readLiteral v).map .values
  | "scalar" => (readScalar v).map .scalar
  | "name" => (readText v).map .text
  | _ => (inner v).map .type

/-- The kind among some members, and the members that are fields. -/
def splitKind (decodeKind : Json → Except Misfit Kind) :
    (kind : Option Kind) → List (String × Json) → Except Misfit (Kind × List (String × Json))
  | some k, [] => .ok (k, [])
  | none, [] => fail (.missingField kindKey)
  | kind, (name, v) :: rest =>
    if name = kindKey then
      match kind with
      | some _ => fail (.duplicateField kindKey)
      | none => do
        let k ← decodeKind v
        splitKind decodeKind (some k) rest
    else (splitKind decodeKind kind rest).map fun (k, ms) => (k, (name, v) :: ms)

/-- Reads the fields of a kind. -/
def decodeFields (inner : Json → Read TypeDef) (kind : Kind) (content : Json) : Read TypeDef := do
  let parts ← kind.form.decode (readPart inner) content
  ofParts kind parts

/-- Reads a description whose parts nest at most `limit` deep. -/
def decodeAt : (limit : Nat) → Json → Read TypeDef
  | 0, v => refuse v expectedDescription
  | limit + 1, v =>
    match v with
    | .object ms => do
      let decodeKind := fun v => (Kind.decode v).mapError fun e => ⟨[], e⟩
      let (kind, fields) ← (splitKind decodeKind none ms).mapError Misfit.error
      decodeFields (decodeAt limit) kind (.object fields)
    | .array (v :: xs) => do
      let kind ← Kind.decode v
      decodeFields (decodeAt limit) kind (.array xs)
    | .array [] => .error (.missingField kindKey)
    | v => refuse v expectedDescription

/-- Reads a description within another. Its depth does not reach the limit. -/
def decode (v : Json) : Read TypeDef := decodeAt (v.depth + 1) v

/-- Reads the fields of a description whose kind has been read. -/
def ofContent (kind : Kind) (content : Json) : Read TypeDef := decodeFields decode kind content

/-- The kind of a description that stands alone. -/
def readKind : Json → Read Kind
  | .string name => Kind.ofTag name
  | v => refuse v Kind.expected

/-- Reads a description that stands alone: its kind first, and then the fields of that kind by
`ofContent`. -/
def ofJson (v : Json) : Decoded TypeDef :=
  let kindAt (step : Json.Step) (v : Json) : Except Misfit Kind :=
    (readKind v).mapError fun e => ⟨[step], e⟩
  let whole (r : Read TypeDef) : Decoded TypeDef := r.mapError fun e => ⟨[], e⟩
  match v with
  | .object ms => do
    let (kind, fields) ← splitKind (kindAt (.key kindKey)) none ms
    whole (ofContent kind (.object fields))
  | .array (v :: xs) => do
    let kind ← kindAt (.index 0) v
    whole (ofContent kind (.array xs))
  | .array [] => fail (.missingField kindKey)
  | v => mismatch v expectedDescription

end TypeDef

namespace Registry

open Decode

/-- Reads the types of a registry in their order; of two for one name the last counts. -/
def ofMembers : (read : Registry) → List (String × Json) → Decoded Registry
  | read, [] => .ok read
  | read, (name, v) :: rest => do
    let d ← (TypeDef.ofJson v).mapError (Misfit.under (.key name))
    ofMembers (Dict.insert read name d) rest

/-- Reads a registry. -/
def ofJson : Json → Decoded Registry
  | .object ms => ofMembers [] ms
  | v => mismatch v "a map"

end Registry

end JsonShape
