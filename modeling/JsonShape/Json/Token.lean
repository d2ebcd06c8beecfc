import JsonShape.Json.Basic
import JsonShape.Json.Cursor

/-!
# Words, numbers and strings of a JSON text

Each reader starts at a cursor and answers what it read with the cursor behind it, or the error and
its position.

* `readWord` reads the rest of `null`, `true` or `false`.
* `readNumber` reads a number: a whole number of the exact range is kept as such, any other
  number goes through `Binary64.ofDecimal?`. At most as many digits count as fit into 64 bits.
* `readString` reads a string behind its opening quote and resolves its escapes.
-/

namespace JsonShape

namespace Json

/-- What a reader answers: a result and the cursor behind it, or an error and its position. -/
abbrev Scan (α : Type) := Except (SyntaxError × Position) (α × Cursor)

/-- An error at what has been read. -/
def failHere {α : Type} (c : Cursor) (e : SyntaxError) : Scan α := .error (e, c.here)

/-- An error at the byte to come. -/
def failAhead {α : Type} (c : Cursor) (e : SyntaxError) : Scan α := .error (e, c.ahead)

/-! ## Words -/

/-- Reads the bytes of a word. -/
def readWord : List UInt8 → Cursor → Scan Unit
  | [], c => .ok ((), c)
  | b :: word, c =>
    match c.next? with
    | none => failHere c .endInValue
    | some (b', c') => if b' = b then readWord word c' else failHere c' .expectedWord

/-! ## Numbers -/

/-- The value of a decimal digit. -/
def digit? (b : UInt8) : Option Nat :=
  if 48 ≤ b ∧ b ≤ 57 then some (b.toNat - 48) else none

/-- Whether the byte to come is a decimal digit. -/
def atDigit (c : Cursor) : Bool := (c.peek?.bind digit?).isSome

/-- A number that is no whole number of the exact range. -/
def finishFloat (negative : Bool) (significand : Nat) (exponent : Int) (c : Cursor) :
    Scan Number :=
  (Binary64.ofDecimal? negative significand exponent).elim (failHere c .numberOutOfRange)
    fun x => .ok (.float x, c)

/-- Skips digits. -/
def skipDigits : List UInt8 → Position → Cursor
  | [], p => ⟨[], p⟩
  | b :: rest, p => if (digit? b).isSome then skipDigits rest (p.after b) else ⟨b :: rest, p⟩

/-- The greatest exponent that is read digit by digit. -/
def greatestExponent : Nat := 0x7fffffff

/-- The digits of an exponent, behind its first one. -/
def readExponentDigits (negative : Bool) (significand : Nat) (start : Int) (positive : Bool) :
    (value : Nat) → List UInt8 → Position → Scan Number
  | value, [], p =>
    finishFloat negative significand (if positive then start + value else start - value) ⟨[], p⟩
  | value, b :: rest, p =>
    match digit? b with
    | none =>
      finishFloat negative significand (if positive then start + value else start - value)
        ⟨b :: rest, p⟩
    | some d =>
      if value * 10 + d ≤ greatestExponent then
        readExponentDigits negative significand start positive (value * 10 + d) rest (p.after b)
      else if significand ≠ 0 ∧ positive then failHere ⟨rest, p.after b⟩ .numberOutOfRange
      else .ok (.float (if negative then Binary64.zero.neg else .zero), skipDigits rest (p.after b))

/-- An exponent, from its mark on. -/
def readExponent (negative : Bool) (significand : Nat) (start : Int) (c : Cursor) :
    Scan Number :=
  let c := c.skip
  let (positive, c) :=
    match c.peek? with
    | some 43 => (true, c.skip)
    | some 45 => (false, c.skip)
    | _ => (true, c)
  match c.next? with
  | none => failHere c .endInValue
  | some (b, c') =>
    match digit? b with
    | none => failHere c' .invalidNumber
    | some d => readExponentDigits negative significand start positive d c'.rest c'.position

/-- What may follow the digits of a fraction: an exponent or nothing. -/
def afterFraction (negative : Bool) (significand : Nat) (exponent : Int) (c : Cursor) :
    Scan Number :=
  if c.peek? = some 101 ∨ c.peek? = some 69 then readExponent negative significand exponent c
  else finishFloat negative significand exponent c

/-- The greatest significand that digits are added to. -/
def greatestSignificand : Nat := 0xffffffffffffffff

/-- The digits of a fraction; digits that no longer fit are skipped. -/
def readFractionDigits (negative : Bool) (before : Int) :
    (significand places : Nat) → List UInt8 → Position → Scan Number
  | significand, places, [], p =>
    if places = 0 then failAhead ⟨[], p⟩ .endInValue
    else afterFraction negative significand (before - places) ⟨[], p⟩
  | significand, places, b :: rest, p =>
    match digit? b with
    | none =>
      if places = 0 then failAhead ⟨b :: rest, p⟩ .invalidNumber
      else afterFraction negative significand (before - places) ⟨b :: rest, p⟩
    | some d =>
      if significand * 10 + d ≤ greatestSignificand then
        readFractionDigits negative before (significand * 10 + d) (places + 1) rest (p.after b)
      else afterFraction negative significand (before - places) (skipDigits (b :: rest) p)

/-- A fraction, from its point on. -/
def readFraction (negative : Bool) (significand : Nat) (before : Int) (c : Cursor) : Scan Number :=
  readFractionDigits negative before significand 0 c.skip.rest c.skip.position

/-- What may follow the whole part of a number. -/
def afterWhole (negative : Bool) (significand : Nat) (c : Cursor) : Scan Number :=
  if c.peek? = some 46 then readFraction negative significand 0 c
  else if c.peek? = some 101 ∨ c.peek? = some 69 then readExponent negative significand 0 c
  else if negative then
    if significand ≠ 0 ∧ significand ≤ 0x8000000000000000 then .ok (.int (-significand), c)
    else finishFloat true significand 0 c
  else .ok (.int significand, c)

/-- The digits of a whole part that no longer fit: they only scale the number. -/
def readLongWhole (negative : Bool) (significand : Nat) :
    (extra : Nat) → List UInt8 → Position → Scan Number
  | extra, [], p => finishFloat negative significand extra ⟨[], p⟩
  | extra, b :: rest, p =>
    if (digit? b).isSome then readLongWhole negative significand (extra + 1) rest (p.after b)
    else if b = 46 then readFraction negative significand extra ⟨b :: rest, p⟩
    else afterFraction negative significand extra ⟨b :: rest, p⟩

/-- The digits of the whole part behind its first one. -/
def readWhole (negative : Bool) : (significand : Nat) → List UInt8 → Position → Scan Number
  | significand, [], p => afterWhole negative significand ⟨[], p⟩
  | significand, b :: rest, p =>
    match digit? b with
    | none => afterWhole negative significand ⟨b :: rest, p⟩
    | some d =>
      if significand * 10 + d ≤ greatestSignificand then
        readWhole negative (significand * 10 + d) rest (p.after b)
      else readLongWhole negative significand 0 (b :: rest) p

/-- A number behind its sign. A zero in front of another digit is an error. -/
def readNumber (negative : Bool) (c : Cursor) : Scan Number :=
  match c.next? with
  | none => failHere c .endInValue
  | some (b, c') =>
    match digit? b with
    | none => failHere c' .invalidNumber
    | some 0 =>
      if atDigit c' then failAhead c' .invalidNumber else afterWhole negative 0 c'
    | some d => readWhole negative d c'.rest c'.position

/-! ## Strings -/

/-- The value of a hexadecimal digit. -/
def hexValue? (b : UInt8) : Option Nat :=
  if 48 ≤ b ∧ b ≤ 57 then some (b.toNat - 48)
  else if 97 ≤ b ∧ b ≤ 102 then some (b.toNat - 87)
  else if 65 ≤ b ∧ b ≤ 70 then some (b.toNat - 55)
  else none

/-- The unit of four hexadecimal digits. -/
def hexUnit? (b₁ b₂ b₃ b₄ : UInt8) : Option Nat := do
  let h₁ ← hexValue? b₁
  let h₂ ← hexValue? b₂
  let h₃ ← hexValue? b₃
  let h₄ ← hexValue? b₄
  some (((h₁ * 16 + h₂) * 16 + h₃) * 16 + h₄)

/-- The byte that a backslash and a letter stand for. -/
def simpleEscape? (b : UInt8) : Option UInt8 :=
  if b = 34 ∨ b = 92 ∨ b = 47 then some b
  else if b = 98 then some 8
  else if b = 102 then some 12
  else if b = 110 then some 10
  else if b = 114 then some 13
  else if b = 116 then some 9
  else none

/-- The position behind several bytes. -/
def afterAll (p : Position) (bytes : List UInt8) : Position := bytes.foldl Position.after p

/-- Gathers, in reverse, the bytes of the character with this code point. -/
def gather (codePoint : Nat) (gathered : List UInt8) : List UInt8 :=
  (String.utf8EncodeChar (Char.ofNat codePoint)).reverse ++ gathered

/-- The code point of a leading and a trailing unit. -/
def joinUnits (lead trail : Nat) : Nat := (lead - 0xD800) * 1024 + (trail - 0xDC00) + 0x10000

/-- The string that the bytes encode. -/
def decodeBytes (bytes : List UInt8) (c : Cursor) : Scan String :=
  match String.fromUTF8? (ByteArray.mk bytes.toArray) with
  | some s => .ok (s, c)
  | none => failHere c .invalidCodePoint

/-- The bytes of a string up to its closing quote, gathered in reverse. Behind a backslash stands a
letter or a unit of four hexadecimal digits, and a leading unit is followed by a trailing one. -/
def readStringBytes : (gathered : List UInt8) → List UInt8 → Position → Scan String
  | _, [], p => failHere ⟨[], p⟩ .endInString
  | gathered, b :: rest, p =>
    if b = 34 then decodeBytes gathered.reverse ⟨rest, p.after b⟩
    else if b < 32 then failHere ⟨rest, p.after b⟩ .controlCharacter
    else if b ≠ 92 then readStringBytes (b :: gathered) rest (p.after b)
    else
      match rest with
      | [] => failHere ⟨[], p.after b⟩ .endInString
      | e :: rest =>
        let p := afterAll p [b, e]
        match simpleEscape? e with
        | some x => readStringBytes (x :: gathered) rest p
        | none =>
          if e ≠ 117 then failHere ⟨rest, p⟩ .invalidEscape
          else
            match rest with
            | b₁ :: b₂ :: b₃ :: b₄ :: rest =>
              let p := afterAll p [b₁, b₂, b₃, b₄]
              match hexUnit? b₁ b₂ b₃ b₄ with
              | none => failHere ⟨rest, p⟩ .invalidEscape
              | some unit =>
                if 0xDC00 ≤ unit ∧ unit ≤ 0xDFFF then failHere ⟨rest, p⟩ .loneSurrogate
                else if unit < 0xD800 ∨ 0xDBFF < unit then
                  readStringBytes (gather unit gathered) rest p
                else
                  match rest with
                  | [] => failHere ⟨[], p⟩ .endInString
                  | s :: rest =>
                    let p := p.after s
                    if s ≠ 92 then failHere ⟨rest, p⟩ .endOfHexEscape
                    else
                      match rest with
                      | [] => failHere ⟨[], p⟩ .endInString
                      | u :: rest =>
                        let p := p.after u
                        if u ≠ 117 then failHere ⟨rest, p⟩ .endOfHexEscape
                        else
                          match rest with
                          | b₅ :: b₆ :: b₇ :: b₈ :: rest =>
                            let p := afterAll p [b₅, b₆, b₇, b₈]
                            match hexUnit? b₅ b₆ b₇ b₈ with
                            | none => failHere ⟨rest, p⟩ .invalidEscape
                            | some trail =>
                              if trail < 0xDC00 ∨ 0xDFFF < trail then
                                failHere ⟨rest, p⟩ .loneSurrogate
                              else readStringBytes (gather (joinUnits unit trail) gathered) rest p
                          | rest => failHere ⟨[], afterAll p rest⟩ .endInString
            | rest => failHere ⟨[], afterAll p rest⟩ .endInString

/-- A string behind its opening quote. -/
def readString (c : Cursor) : Scan String := readStringBytes [] c.rest c.position

end Json

end JsonShape
