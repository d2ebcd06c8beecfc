import JsonShape.Regex.Expr
import JsonShape.Regex.Named
import JsonShape.Regex.Source

/-!
# Escapes

A backslash gives the character behind it a meaning, or takes one from it.

* `Flags.fold` is a set in the case that flags ask for.
* `readEscape?` reads an escape, `readUnicodeClass?` one that names a set.
-/

namespace JsonShape

namespace Regex

/-- A set in the case that flags ask for. Without Unicode only ASCII letters have a case. -/
def Flags.fold (flags : Flags) (set : CharSet) : CharSet :=
  if !flags.ignoreCase then set
  else if flags.unicode then .anyCase set
  else .inter (.anyCase set) .ascii

/-- The characters up to a closing brace. -/
def readBraced? : (fuel : Nat) → Source → Option (List Char × Source)
  | 0, _ => none
  | fuel + 1, s => do
    let c ← s.rest.head?
    if c = '\x7d' then some ([], s.drop 1)
    else
      let (cs, s) ← readBraced? fuel s.bump
      some (c :: cs, s)

/-- A Unicode class behind its letter. -/
def readUnicodeClass? (negated : Bool) (s : Source) : Option (CharSet × Source) := do
  let c ← s.rest.head?
  let (set, s) ←
    if c = '\x7b' then do
      let (text, s) ← readBraced? s.rest.length s.bump
      let set ← bracedSet? text
      some (set, s)
    else if c = '\\' then none
    else do
      let set ← namedSet? (plainName [c])
      some (set, s.bump)
  if !s.flags.unicode then none
  else
    let set := s.flags.fold set
    some (if negated then .compl set else set, s)

/-- What an escape or a plain character stands for. -/
inductive Atom
  | literal (c : Char)
  | set (s : CharSet)
  | look (l : Look)

/-- The characters with a meaning of their own. -/
def isMeta (c : Char) : Bool := "\\.+*?()|[]\x7b\x7d^$#&-~".toList.contains c

/-- Whether a backslash may stand before a character to no effect. -/
def isEscapable (c : Char) : Bool :=
  isMeta c || (c.toNat < 128 && !c.isAlphanum && c != '<' && c != '>')

/-- The set of a class of one letter. A complement needs Unicode. -/
def perlSet? (flags : Flags) (c : Char) : Option CharSet :=
  let positive : Option CharSet :=
    match c.toLower with
    | 'd' => some (if flags.unicode then .categories ["Nd"] else .asciiDigit)
    | 's' => some (if flags.unicode then .whiteSpace else .asciiSpace)
    | 'w' => some (if flags.unicode then .word else .asciiWord)
    | _ => none
  if c.isUpper then
    if flags.unicode then positive.map .compl else none
  else positive

/-- The letters of the name of a boundary. -/
def readBoundaryName : (fuel : Nat) → Source → List Char × Source
  | 0, s => ([], s)
  | fuel + 1, s =>
    match s.rest with
    | c :: _ =>
      if c.isAlpha || c = '-' then
        let (cs, s) := readBoundaryName fuel s.bump
        (c :: cs, s)
      else ([], s)
    | [] => ([], s)

/-- What follows `\b`: the name of a boundary in braces, or nothing. -/
def readBoundary? (s : Source) : Option (Look × Source) :=
  let u := s.flags.unicode
  if s.rest.head? = some '\x7b' then
    let inner := s.bump
    match inner.rest with
    | [] => none
    | c :: _ =>
      if c.isAlpha || c = '-' then
        let (name, after) := readBoundaryName inner.rest.length inner
        if after.rest.head? = some '\x7d' then
          match String.ofList name with
          | "start" => some (.wordStart u, after.drop 1)
          | "end" => some (.wordEnd u, after.drop 1)
          | "start-half" => some (.wordStartHalf u, after.drop 1)
          | "end-half" => some (.wordEndHalf u, after.drop 1)
          | _ => none
        else none
      else some (.wordBoundary u, s)
  else some (.wordBoundary u, s)

/-- An escape, behind its backslash. -/
def readEscape? (s : Source) : Option (Atom × Source) := do
  let c ← s.rest.head?
  let u := s.flags.unicode
  let hex (digits : Nat) : Option (Atom × Source) := do
    let (c, s) ← readHex? digits s.bump
    some (.literal c, s)
  let after := s.drop 1
  if c.isDigit then none
  else if c = 'x' then hex 2
  else if c = 'u' then hex 4
  else if c = 'U' then hex 8
  else if c = 'p' ∨ c = 'P' then do
    let (set, s) ← readUnicodeClass? (c = 'P') s.bump
    some (.set set, s)
  else if (perlSet? .initial c).isSome then do
    let set ← perlSet? s.flags c
    some (.set set, after)
  else if isEscapable c then some (.literal c, after)
  else
    match c with
    | 'a' => some (.literal '\x07', after)
    | 'f' => some (.literal '\x0c', after)
    | 't' => some (.literal '\t', after)
    | 'n' => some (.literal '\n', after)
    | 'r' => some (.literal '\r', after)
    | 'v' => some (.literal '\x0b', after)
    | 'A' => some (.look .textStart, after)
    | 'z' => some (.look .textEnd, after)
    | 'b' => do
      let (look, s) ← readBoundary? after
      some (.look look, s)
    | 'B' => some (.look (.notWordBoundary u), after)
    | '<' => some (.look (.wordStart u), after)
    | '>' => some (.look (.wordEnd u), after)
    | _ => none

end Regex

end JsonShape
