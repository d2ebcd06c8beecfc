import JsonShape.Unicode.Extension
import JsonShape.Unicode.Folding
import JsonShape.Unicode.Property

/-!
# Sets of characters

The sets that a pattern can name, closed under the operations of bracketed classes.
`CharSet.contains` decides membership.
-/

namespace JsonShape

namespace Regex

/-- A set of characters. -/
inductive CharSet
  /-- The characters between two code points, both included. -/
  | range (first last : Nat)
  /-- The characters of these general categories. -/
  | categories (names : List String)
  /-- The characters of a script, by its code. -/
  | script (code : String)
  /-- The characters that are written in a script, by its code. -/
  | scriptExtension (code : String)
  /-- The characters of general categories and of other ranges, those in both left out. -/
  | listed (categories : List String) (exceptions : Unicode.Ranges)
  | alphabetic
  | lowercase
  | uppercase
  | whiteSpace
  | word
  | union (members : List CharSet)
  | inter (a b : CharSet)
  | diff (a b : CharSet)
  | symmDiff (a b : CharSet)
  | compl (a : CharSet)
  /-- The characters that differ from a member only in case. -/
  | anyCase (a : CharSet)

namespace CharSet

/-- No character. -/
def empty : CharSet := union []

/-- Every character. -/
def any : CharSet := range 0 0x10FFFF

/-- One character. -/
def single (c : Char) : CharSet := range c.toNat c.toNat

/-- The ASCII characters. -/
def ascii : CharSet := range 0 127

/-- The ASCII digits. -/
def asciiDigit : CharSet := range 48 57

/-- The ASCII characters of words. -/
def asciiWord : CharSet := union [range 97 122, range 65 90, asciiDigit, range 95 95]

/-- The ASCII characters of white space. -/
def asciiSpace : CharSet := union [range 9 13, range 32 32]

mutual

/-- Whether a character is in a set. -/
def contains : CharSet → Char → Bool
  | .range first last, c => first ≤ c.toNat && c.toNat ≤ last
  | .categories names, c => Unicode.hasCategory names c
  | .script code, c => Unicode.script c == code
  | .scriptExtension code, c => Unicode.hasScriptExtension code c
  | .listed names exceptions, c =>
    Unicode.hasCategory names c != exceptions.contains c.toNat
  | .alphabetic, c => Unicode.isAlphabetic c
  | .lowercase, c => Unicode.isLowercase c
  | .uppercase, c => Unicode.isUppercase c
  | .whiteSpace, c => Unicode.isWhiteSpace c
  | .word, c => Unicode.isWord c
  | .union members, c => containsAny members c
  | .inter a b, c => contains a c && contains b c
  | .diff a b, c => contains a c && !contains b c
  | .symmDiff a b, c => contains a c != contains b c
  | .compl a, c => !contains a c
  | .anyCase a, c =>
    contains a c || (Unicode.caseVariants c.toNat).any fun n => contains a (Char.ofNat n)

/-- Whether a character is in one of several sets. -/
def containsAny : List CharSet → Char → Bool
  | [], _ => false
  | a :: rest, c => contains a c || containsAny rest c

end

end CharSet

end Regex

end JsonShape
