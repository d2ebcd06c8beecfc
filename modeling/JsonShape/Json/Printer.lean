import JsonShape.Json.Basic

/-!
# JSON text of values

* `Json.compact` writes a value without blanks.
* `Json.pretty` writes one item or member a line, indented by two blanks a level.
* `quoted` writes a string: quotes, backslashes and control characters are escaped, every other
  character stands for itself.
-/

namespace JsonShape

namespace Json

/-- A hexadecimal digit, in lower case. -/
def hexDigit (n : Nat) : Char := (Nat.toDigits 16 (n % 16)).headD '0'

/-- The characters that stand for `c` between quotes. -/
def escapeChar (c : Char) : List Char :=
  if c = '"' then ['\\', '"']
  else if c = '\\' then ['\\', '\\']
  else if c = '\n' then ['\\', 'n']
  else if c = '\r' then ['\\', 'r']
  else if c = '\t' then ['\\', 't']
  else if c.toNat = 8 then ['\\', 'b']
  else if c.toNat = 12 then ['\\', 'f']
  else if c.toNat < 32 then ['\\', 'u', '0', '0', hexDigit (c.toNat / 16), hexDigit c.toNat]
  else [c]

/-- A string in quotes. -/
def quoted (s : String) : String :=
  String.ofList ('"' :: s.toList.flatMap escapeChar ++ ['"'])

/-! ## Without blanks -/

mutual

/-- The text of a value without blanks. -/
def compact : Json → String
  | .null => "null"
  | .bool b => if b then "true" else "false"
  | .number n => n.text
  | .string s => quoted s
  | .array xs => "[" ++ compactItems xs ++ "]"
  | .object ms => "\x7b" ++ compactMembers ms ++ "\x7d"

/-- The items, with commas between them. -/
def compactItems : List Json → String
  | [] => ""
  | [x] => x.compact
  | x :: rest => x.compact ++ "," ++ compactItems rest

/-- The members, with commas between them. -/
def compactMembers : List (String × Json) → String
  | [] => ""
  | [(k, x)] => quoted k ++ ":" ++ x.compact
  | (k, x) :: rest => quoted k ++ ":" ++ x.compact ++ "," ++ compactMembers rest

end

/-! ## Indented -/

/-- A line break and the blanks of a level. -/
def lineBreak (level : Nat) : String := String.ofList ('\n' :: List.replicate (2 * level) ' ')

mutual

/-- The text of a value whose first line stands at a level. Empty arrays and objects take no line
of their own. -/
def prettyAt (level : Nat) : Json → String
  | .null => "null"
  | .bool b => if b then "true" else "false"
  | .number n => n.text
  | .string s => quoted s
  | .array [] => "[]"
  | .array (x :: rest) => "[" ++ prettyItems (level + 1) (x :: rest) ++ lineBreak level ++ "]"
  | .object [] => "\x7b\x7d"
  | .object (m :: rest) =>
    "\x7b" ++ prettyMembers (level + 1) (m :: rest) ++ lineBreak level ++ "\x7d"

/-- The items, each on lines of its own. -/
def prettyItems (level : Nat) : List Json → String
  | [] => ""
  | [x] => lineBreak level ++ prettyAt level x
  | x :: rest => lineBreak level ++ prettyAt level x ++ "," ++ prettyItems level rest

/-- The members, each on lines of its own. -/
def prettyMembers (level : Nat) : List (String × Json) → String
  | [] => ""
  | [(k, x)] => lineBreak level ++ quoted k ++ ": " ++ prettyAt level x
  | (k, x) :: rest =>
    lineBreak level ++ quoted k ++ ": " ++ prettyAt level x ++ "," ++ prettyMembers level rest

end

/-- The indented text of a value. -/
def pretty (v : Json) : String := prettyAt 0 v

end Json

end JsonShape
