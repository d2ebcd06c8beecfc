import JsonShape.Decode.Error

/-!
# Typed views of values

A target describes a fixed type: signed whole numbers of 64 bits, strings, lists, values that may be
null, and records. `Target.decode` reads a JSON value as such a type and answers the value that the
type keeps of it, or the first misfit and its place.

A record is read from an object, in the order of its members, where unknown members are ignored and
an absent member that may be null is null; or from an array that holds its fields in order.
-/

namespace JsonShape

namespace Decode

/-- A fixed type. -/
inductive Target
  | int64
  | string
  | list (item : Target)
  /-- A value that may be null. -/
  | optional (inner : Target)
  | record (name : String) (fields : List (String × Target))

namespace Target

/-- Whether a value may be absent. -/
def isOptional : Target → Bool
  | optional _ => true
  | _ => false

/-- How an array of the wrong length differs from a record. -/
def recordLength (name : String) (fields : Nat) : String :=
  "struct " ++ name ++ " with " ++ Number.intText fields ++
    (if fields = 1 then " element" else " elements")

/-- The fields in the order of the type; the first absent one that may not be absent is an error. -/
def complete (read : Dict Json) : List (String × Target) → Decoded (Dict Json)
  | [] => .ok []
  | (name, target) :: rest =>
    match read.get? name with
    | some v => (complete read rest).map ((name, v) :: ·)
    | none =>
      if target.isOptional then (complete read rest).map ((name, .null) :: ·)
      else fail (.missingField name)

mutual

/-- Reads a value as a fixed type. -/
def decode : Target → Json → Decoded Json
  | .int64, .number (.int n) =>
    if n ≤ Number.greatestSigned then .ok (.number (.int n))
    else fail (.invalidValue (.number (.int n)) "i64")
  | .int64, v => mismatch v "i64"
  | .string, .string s => .ok (.string s)
  | .string, v => mismatch v "a string"
  | .list item, .array xs =>
    (xs.zipIdx.mapM fun x => (decode item x.1).mapError (Misfit.under (.index x.2))).map .array
  | .list _, v => mismatch v "a sequence"
  | .optional _, .null => .ok .null
  | .optional inner, v => decode inner v
  | .record _ fields, .object ms => do
    let read ← ms.filterMapM fun e => decodeMember fields e.1 e.2
    (complete read fields).map .object
  | .record name fields, .array xs => do
    let read ← decodeItems name fields.length 0 fields xs
    if fields.length < xs.length then
      fail (.invalidLength xs.length "fewer elements in array")
    else .ok (.object read)
  | .record name _, v => mismatch v ("struct " ++ name)

/-- Reads one member of a record; a member that is no field is passed over. -/
def decodeMember : List (String × Target) → String → Json → Decoded (Option (String × Json))
  | [], _, _ => .ok none
  | (name, target) :: rest, key, v =>
    if name = key then
      ((decode target v).mapError (Misfit.under (.key key))).map fun w => some (key, w)
    else decodeMember rest key v

/-- Reads the items of an array as the fields of a record, from index `i` on. -/
def decodeItems (record : String) (count : Nat) :
    (i : Nat) → List (String × Target) → List Json → Decoded (Dict Json)
  | _, [], _ => .ok []
  | i, _ :: _, [] => fail (.invalidLength i (recordLength record count))
  | i, (name, target) :: rest, x :: xs => do
    let v ← (decode target x).mapError (Misfit.under (.index i))
    let more ← decodeItems record count (i + 1) rest xs
    .ok ((name, v) :: more)

end

end Target

end Decode

end JsonShape
