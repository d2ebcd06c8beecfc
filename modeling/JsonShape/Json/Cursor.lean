import JsonShape.Json.Path

/-!
# Positions in a text

A cursor stands in front of the rest of a text of bytes and knows its line and column. A position
is the number of the line, from one, and the number of bytes read of it.

* `Cursor.next?` takes one byte.
* `Cursor.here` is the position of what has been read, `Cursor.ahead` that of the byte to come.
* `SyntaxError` lists what can be wrong with a text that is no JSON.
-/

namespace JsonShape

namespace Json

/-- A line and a column of a text. -/
structure Position where
  line : Nat
  column : Nat
  deriving DecidableEq

/-- The position behind one more byte. -/
def Position.after (p : Position) (b : UInt8) : Position :=
  if b = 10 then ⟨p.line + 1, 0⟩ else ⟨p.line, p.column + 1⟩

/-- The rest of a text, and where it starts. -/
structure Cursor where
  rest : List UInt8
  position : Position

namespace Cursor

/-- The start of a text. -/
def ofBytes (bytes : List UInt8) : Cursor := ⟨bytes, ⟨1, 0⟩⟩

/-- The start of a text of characters. -/
def ofString (s : String) : Cursor := ofBytes s.toUTF8.toList

/-- The byte to come, not taken. -/
def peek? (c : Cursor) : Option UInt8 := c.rest.head?

/-- Takes one byte. -/
def next? (c : Cursor) : Option (UInt8 × Cursor) :=
  match c.rest with
  | [] => none
  | b :: rest => some (b, ⟨rest, c.position.after b⟩)

/-- The cursor behind the byte to come; at the end, the same one. -/
def skip (c : Cursor) : Cursor :=
  match c.next? with
  | none => c
  | some (_, c') => c'

/-- The position of what has been read. -/
def here (c : Cursor) : Position := c.position

/-- The position of the byte to come; at the end, of the last one. -/
def ahead (c : Cursor) : Position := c.skip.position

/-- Whether a byte is a blank between tokens. -/
def isBlank (b : UInt8) : Bool := b = 32 || b = 10 || b = 9 || b = 13

/-- Skips the blanks in front of a list of bytes. -/
def skipBlanksFrom : List UInt8 → Position → Cursor
  | [], p => ⟨[], p⟩
  | b :: rest, p => if isBlank b then skipBlanksFrom rest (p.after b) else ⟨b :: rest, p⟩

/-- Skips blanks. -/
def skipBlanks (c : Cursor) : Cursor := skipBlanksFrom c.rest c.position

end Cursor

/-- What is wrong with a text that is no JSON. -/
inductive SyntaxError
  | endInValue
  | endInList
  | endInObject
  | endInString
  | expectedColon
  | expectedListCommaOrEnd
  | expectedObjectCommaOrEnd
  | expectedWord
  | expectedValue
  | invalidEscape
  | invalidNumber
  | numberOutOfRange
  | invalidCodePoint
  | controlCharacter
  | nameNotString
  | loneSurrogate
  | trailingComma
  | trailingCharacters
  | endOfHexEscape
  | tooDeep
  deriving DecidableEq

/-- The wording of a syntax error. -/
def SyntaxError.message : SyntaxError → String
  | endInValue => "EOF while parsing a value"
  | endInList => "EOF while parsing a list"
  | endInObject => "EOF while parsing an object"
  | endInString => "EOF while parsing a string"
  | expectedColon => "expected `:`"
  | expectedListCommaOrEnd => "expected `,` or `]`"
  | expectedObjectCommaOrEnd => "expected `,` or `\x7d`"
  | expectedWord => "expected ident"
  | expectedValue => "expected value"
  | invalidEscape => "invalid escape"
  | invalidNumber => "invalid number"
  | numberOutOfRange => "number out of range"
  | invalidCodePoint => "invalid unicode code point"
  | controlCharacter =>
    "control character (\\u0000-\\u001F) found while parsing a string"
  | nameNotString => "key must be a string"
  | loneSurrogate => "lone leading surrogate in hex escape"
  | trailingComma => "trailing comma"
  | trailingCharacters => "trailing characters"
  | endOfHexEscape => "unexpected end of hex escape"
  | tooDeep => "recursion limit exceeded"

end Json

end JsonShape
