import JsonShape.Unicode.Property

/-!
# The text of a pattern

What is left to read of a pattern, and the numbers that can stand in it. Blanks and comments between
the parts of a pattern do not count while the flag for them is set.

* `Source` is what is left of a pattern, with the flags in force there.
* `readDecimal?` and `readHex?` read the numbers of repetitions and of escapes.
-/

namespace JsonShape

namespace Regex

/-- What flags have been set. -/
structure Flags where
  ignoreCase : Bool
  multiLine : Bool
  dotAll : Bool
  crlf : Bool
  verbose : Bool
  unicode : Bool

/-- The flags at the start of a pattern. -/
def Flags.initial : Flags := ⟨false, false, false, false, false, true⟩

/-- What is left of a pattern, with the flags in force and the names of the groups so far. -/
structure Source where
  rest : List Char
  flags : Flags
  names : List String

/-- Drops the rest of a line. -/
def dropLine : List Char → List Char
  | [] => []
  | c :: rest => if c = '\n' then rest else dropLine rest

theorem dropLine_length_le (cs : List Char) : (dropLine cs).length ≤ cs.length := by
  induction cs with
  | nil => simp [dropLine]
  | cons c rest ih =>
    unfold dropLine
    split
    · simp
    · exact Nat.le_succ_of_le ih

/-- Drops white space and comments. -/
def dropBlanks (cs : List Char) : List Char :=
  match cs with
  | [] => []
  | c :: rest =>
    if Unicode.isWhiteSpace c then dropBlanks rest
    else if c = '#' then dropBlanks (dropLine rest)
    else c :: rest
termination_by cs.length
decreasing_by
  · simp
  · have := dropLine_length_le rest
    simp only [List.length_cons]
    omega

namespace Source

/-- The rest of the pattern, without blanks where they do not count. -/
def skipBlanks (s : Source) : Source :=
  if s.flags.verbose then { s with rest := dropBlanks s.rest } else s

/-- The source behind its next characters. -/
def drop (s : Source) (n : Nat) : Source := { s with rest := s.rest.drop n }

/-- The source behind its next character and the blanks that follow. -/
def bump (s : Source) : Source := (s.drop 1).skipBlanks

/-- Whether the rest starts with a text. -/
def startsWith (s : Source) (text : String) : Bool := text.toList.isPrefixOf s.rest

end Source

/-- A number of at most 32 bits, with blanks around it. -/
def readDecimal? (s : Source) : Option (Nat × Source) := do
  let s := { s with rest := s.rest.dropWhile Unicode.isWhiteSpace }
  let rec digits : (fuel : Nat) → (value : Nat) → Source → Nat × Source
    | 0, value, s => (value, s)
    | fuel + 1, value, s =>
      match s.rest with
      | c :: _ => if c.isDigit then digits fuel (value * 10 + (c.toNat - 48)) s.bump else (value, s)
      | [] => (value, s)
  if s.rest.head?.any Char.isDigit then
    let (n, s) := digits s.rest.length 0 s
    if n < 0x100000000 then
      some (n, { s with rest := s.rest.dropWhile Unicode.isWhiteSpace }.skipBlanks)
    else none
  else none

/-- The value of a hexadecimal digit. -/
def hexDigit? (c : Char) : Option Nat :=
  if '0' ≤ c ∧ c ≤ '9' then some (c.toNat - 48)
  else if 'a' ≤ c ∧ c ≤ 'f' then some (c.toNat - 87)
  else if 'A' ≤ c ∧ c ≤ 'F' then some (c.toNat - 55)
  else none

/-- The character of a code point. -/
def charOf? (n : Nat) : Option Char := if h : n.isValidChar then some (Char.ofNatAux n h) else none

/-- As many hexadecimal digits as are asked for. -/
def readHexDigits? : (count value : Nat) → Source → Option (Nat × Source)
  | 0, value, s => some (value, s)
  | count + 1, value, s => do
    let c ← s.rest.head?
    let d ← hexDigit? c
    readHexDigits? count (value * 16 + d) s.bump

/-- Hexadecimal digits up to a closing brace, at least one. -/
def readHexBrace? : (fuel : Nat) → (value : Option Nat) → Source → Option (Nat × Source)
  | 0, _, _ => none
  | fuel + 1, value, s => do
    let c ← s.rest.head?
    if c = '\x7d' then
      let n ← value
      some (n, s.bump)
    else
      let d ← hexDigit? c
      let n := value.getD 0 * 16 + d
      if n < 0x100000000 then readHexBrace? fuel (some n) s.bump else none

/-- The character of a hexadecimal escape, behind its letter. Two digits without braces write a
byte, which is a character outside ASCII only in Unicode. -/
def readHex? (digits : Nat) (s : Source) : Option (Char × Source) := do
  let braced := s.rest.head? = some '\x7b'
  let (n, s) ←
    if braced then readHexBrace? s.rest.length none s.bump else readHexDigits? digits 0 s
  if digits = 2 ∧ !braced ∧ !s.flags.unicode ∧ 128 ≤ n then none
  else
    let c ← charOf? n
    some (c, s)

end Regex

end JsonShape
