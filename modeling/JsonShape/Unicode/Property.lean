import JsonShape.Unicode.Category

/-!
# Properties of characters

Properties that are a union of general categories and of some further characters, which are listed
as ranges.

* `isAlphabetic`, `isLowercase`, `isUppercase`, `isWhiteSpace` are the properties of those names.
* `isWord` is the class of characters that make up words.
* `isPrintable` holds of the characters that are shown as they are.
-/

namespace JsonShape

namespace Unicode

/-- Alphabetic characters that are neither letters nor letter numbers. -/
def otherAlphabetic : Ranges := Ranges.decode [
  "n9 1 h6 e 1 1 1 2 1 2 1 1 20 b 1c d 1 7 g 1 2t 7 4 4 2 2 4 1 z 1 u g 2u b 2t 2 3 9 1 3 1 4 ",
  "4n c 3 7 6 k 1i 2 2 f 1 2 5 3 a 2 t 3 1m 7 2 2 2 2 a 1 a 2 t 3 1m 5 4 2 2 2 4 1 u 2 3 1 b 3 ",
  "1m 8 1 3 1 2 l 2 m 3 4 3 1m 7 2 2 2 2 9 2 a 2 u 1 1n 5 3 3 1 3 a 1 14 5 1l 7 1 3 1 3 8 2 b ",
  "2 t 3 1m 7 1 3 1 3 8 2 b 2 f 1 c 4 1m 7 1 3 1 3 a 1 a 2 t 3 23 6 1 1 1 8 i 2 1p 1 2 7 i 1 ",
  "2r 1 2 6 1 2 g 1 4j j 9 b 1 10 32 c 1 1 2 4 n 4 4 3 1 3 2 7 3 4 d c 1 1 a 4 19w 2 u 2 u 2 u ",
  "2 1u j 58 2 y 1 3a c 4 9 66 5 1l a 2 k 22 2 b 3 1d 5 1c f 1o 3 u 9 2 2 1l b 1e j c0 e 1c1 ",
  "1g 1rq w nsk 8 y 2 9u 1 8 1 n 5 2g 2 1e g 1 1 1l 1 12 5 s c 19 4 1c c 11 1 1v e c 1 8 2 19 ",
  "3 1e 1 1 3 2 2 5 1 18 5 5 1 6l 8 fn7 1 1nb 5 1ae 3 1 2 5 4 lw 4 ar 2 9f 3 1h e 19 2 b 3 19 ",
  "9 9 1 1p 3 10 c i 2 1l 3 1c d e 2 2k 9 2 1 6 1 2 1 4d a n 4 1m 7 2 2 2 2 a 1 a 2 5t d 1 3 ",
  "2y i 6l 7 2 7 t 2 2a f 1 1 2y b 2v e 75 d 6v 6 1 2 2 2 3 1 1 1 3y 7 2 6 4 1 s a 16 5 1 4 i ",
  "b 1a e bb 8 1 7 2b m 1 e 3e 6 3 1 1 2 1 3 1 1 3 1 1u 5 1 2 1 4 9o 4 9 2 1 1 1c 7 3 3 fta 1 ",
  "1 1j 7 4 2l 2 f58 1 6zl 7 1 h 2 7 1 2 1 5 2s 1 1pz 1 1k8 q 6 q 6 q "]

/-- Lower-case characters that are no lower-case letters. -/
def otherLowercase : Ranges := Ranges.decode [
  "4q 1 f 1 dx 9 7 2 u 5 2o 1 1g 1 2o1 1 2en 1r d 1 y 11 j5 1 d 1 g d 5v g nk q 1hu 2 o4e 2 5u ",
  "1 3l 3 3 2 o2 4 9 1 i6u 1 2 3 1 16 1 9 16r9 1q "]

/-- Upper-case characters that are no upper-case letters. -/
def otherUppercase : Ranges := Ranges.decode [
  "6lc g na q 2ixs q 6 q 6 q "]

/-- Characters that extend the one before them and are no non-spacing or enclosing marks. -/
def otherExtending : Ranges := Ranges.decode [
  "1xa 1 o 1 9y 1 o 1 2u 1 o 1 6i 1 i 2 2v 1 o 1 3b 1 f 1 2mt 1 ye 1 36p 2 14z2 2 3vi 1 o 1 9k ",
  "1 c 1 6p 1 ow 1 10dw 1 8 5 h419 2o "]

/-- White space. -/
def whiteSpace : Ranges := Ranges.decode [
  "9 5 i 1 2s 1 q 1 4bj 1 1vj b t 2 5 1 1b 1 334 1"]

/-- The categories of letters. -/
def letters : List String := ["Lu", "Ll", "Lt", "Lm", "Lo"]

/-- Whether a character is alphabetic. -/
def isAlphabetic (c : Char) : Bool :=
  hasCategory letters c || hasCategory ["Nl"] c || otherAlphabetic.contains c.toNat

/-- Whether a character is alphabetic or a number. -/
def isAlphanumeric (c : Char) : Bool := isAlphabetic c || hasCategory ["Nd", "Nl", "No"] c

/-- Whether a character is in lower case. -/
def isLowercase (c : Char) : Bool := hasCategory ["Ll"] c || otherLowercase.contains c.toNat

/-- Whether a character is in upper case. -/
def isUppercase (c : Char) : Bool := hasCategory ["Lu"] c || otherUppercase.contains c.toNat

/-- Whether a character is white space. -/
def isWhiteSpace (c : Char) : Bool := whiteSpace.contains c.toNat

/-- Whether a character makes up words: alphabetic characters, marks, decimal digits, connecting
punctuation and the two joiners. -/
def isWord (c : Char) : Bool :=
  isAlphabetic c || hasCategory ["Mn", "Mc", "Me", "Nd", "Pc"] c || c.toNat = 0x200C ||
    c.toNat = 0x200D

/-- Whether a character extends the one before it. -/
def isExtending (c : Char) : Bool := hasCategory ["Mn", "Me"] c || otherExtending.contains c.toNat

/-- Whether a character is shown as it is: the blank, and all that is neither a separator nor a
control, format, private or unassigned code point. -/
def isPrintable (c : Char) : Bool :=
  c = ' ' || !hasCategory ["Cc", "Cf", "Cs", "Co", "Cn", "Zl", "Zp", "Zs"] c

end Unicode

end JsonShape
