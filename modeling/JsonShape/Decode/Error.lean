import JsonShape.Json.Basic
import JsonShape.Json.Path
import JsonShape.Unicode.Property

/-!
# Why a value does not decode

Decoding reads a JSON value as a value of a fixed type. `DecodeError` lists what can be wrong with
it; `Misfit` also says where.

* `Kind.ofJson` says what a value is, for an error.
* `DecodeError.message` words an error. Strings are shown in quotes, with characters escaped that
  cannot be seen.
-/

namespace JsonShape

namespace Decode

/-- What stood in the place of an expected value. -/
inductive Kind
  | null
  | boolean (b : Bool)
  | number (n : Number)
  | string (s : String)
  | sequence
  | map
  /-- An alternative without content. -/
  | unitVariant

/-- What a value is. -/
def Kind.ofJson : Json → Kind
  | .null => .null
  | .bool b => .boolean b
  | .number n => .number n
  | .string s => .string s
  | .array _ => .sequence
  | .object _ => .map

/-- The hexadecimal digits of a code point, in braces. -/
def escapeCodePoint (n : Nat) : List Char := ['\\', 'u', '\x7b'] ++ Nat.toDigits 16 n ++ ['\x7d']

/-- The characters that show `c`. -/
def showChar (c : Char) : List Char :=
  if c = '\x00' then ['\\', '0']
  else if c = '\t' then ['\\', 't']
  else if c = '\r' then ['\\', 'r']
  else if c = '\n' then ['\\', 'n']
  else if c = '\\' ∨ c = '"' then ['\\', c]
  else if Unicode.isExtending c then escapeCodePoint c.toNat
  else if Unicode.isPrintable c then [c]
  else escapeCodePoint c.toNat

/-- A string in quotes, as errors show it. -/
def showString (s : String) : String :=
  String.ofList ('"' :: s.toList.flatMap showChar ++ ['"'])

/-- The wording of what stood there. -/
def Kind.text : Kind → String
  | null => "null"
  | boolean b => "boolean `" ++ (if b then "true" else "false") ++ "`"
  | number (.int n) => "integer `" ++ Number.intText n ++ "`"
  | number (.float x) => "floating point `" ++ x.text ++ "`"
  | string s => "string " ++ showString s
  | sequence => "sequence"
  | map => "map"
  | unitVariant => "unit variant"

/-- What is wrong with a value. -/
inductive DecodeError
  /-- The value is not of the expected type. -/
  | invalidType (found : Kind) (expected : String)
  /-- The value is of the expected type and out of its range. -/
  | invalidValue (found : Kind) (expected : String)
  /-- An array has the wrong number of items. -/
  | invalidLength (length : Nat) (expected : String)
  | missingField (name : String)
  | duplicateField (name : String)
  | unknownVariant (name : String) (known : List String)
  /-- No alternative of a union without marks fits. -/
  | noAlternative (union : String)

/-- Alternatives in words. -/
def oneOfText (names : List String) : String :=
  let quote (name : String) := "`" ++ name ++ "`"
  match names with
  | [a] => quote a
  | [a, b] => quote a ++ " or " ++ quote b
  | names => "one of " ++ ", ".intercalate (names.map quote)

/-- The wording of an error. -/
def DecodeError.message : DecodeError → String
  | invalidType found expected => "invalid type: " ++ found.text ++ ", expected " ++ expected
  | invalidValue found expected => "invalid value: " ++ found.text ++ ", expected " ++ expected
  | invalidLength length expected =>
    "invalid length " ++ Number.intText length ++ ", expected " ++ expected
  | missingField name => "missing field `" ++ name ++ "`"
  | duplicateField name => "duplicate field `" ++ name ++ "`"
  | unknownVariant name known => "unknown variant `" ++ name ++ "`, expected " ++ oneOfText known
  | noAlternative union => "data did not match any variant of untagged enum " ++ union

/-- An error and the place of the value that has it. -/
structure Misfit where
  path : Json.Path
  error : DecodeError

/-- The misfit of a part, seen from the whole. -/
def Misfit.under (step : Json.Step) (m : Misfit) : Misfit := ⟨step :: m.path, m.error⟩

/-- What decoding answers. -/
abbrev Decoded (α : Type) := Except Misfit α

/-- Refuses the value itself. -/
def fail {α : Type} (error : DecodeError) : Decoded α := .error ⟨[], error⟩

/-- Refuses the value itself for its type. -/
def mismatch {α : Type} (v : Json) (expected : String) : Decoded α :=
  fail (.invalidType (.ofJson v) expected)

/-- The sentence that names an error and its place. -/
def sentence (path : Json.Path) (reason : String) : String :=
  "at JSON path " ++ path.text ++ " → " ++ reason

end Decode

end JsonShape
