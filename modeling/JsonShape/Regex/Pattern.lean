import JsonShape.Regex.Basic
import JsonShape.Regex.Bracketed
import JsonShape.Regex.Size

/-!
# Patterns

A pattern is the text of a regular expression. `Regex.parse?` reads a pattern and answers `none`
where it is invalid, nested too deep or too large. `Regex.Engine.standard` is the engine that reads
and matches patterns so; nothing but the running program depends on it.

Groups, alternatives and repetitions have their usual form; a group may have a name, which no other
group has, or set flags for itself (`(?i:…)`) or for the rest of the group around it (`(?i)`):
case, lines, dots, blanks and Unicode. References to groups and assertions about what is around a
match are refused.
-/

namespace JsonShape

namespace Regex

/-- A part of a pattern, with the number of groups, repetitions, sequences, alternatives and classes
that are nested in it, and whether a repetition can apply to it. -/
structure Piece where
  expr : Expr
  depth : Nat
  repeatable : Bool

namespace Piece

/-- A part with no other part in it. -/
def leaf (e : Expr) : Piece := ⟨e, 0, true⟩

/-- Flags for what follows, which match nothing. -/
def flags : Piece := ⟨.empty, 0, false⟩

/-- One part around another. -/
def wrap (p : Piece) (e : Expr) : Piece := ⟨e, p.depth + 1, true⟩

/-- A group around a part, whose place may be kept. -/
def group (kept : Bool) (p : Piece) : Piece := p.wrap (if kept then .group p.expr else p.expr)

/-- Joins parts. One part alone stands for itself. -/
def joinWith (op : Expr → Expr → Expr) (p : Piece) : List Piece → Piece
  | [] => p
  | ps =>
    let depth := ps.foldl (fun n q => max n q.depth) p.depth
    ⟨ps.foldl (fun e q => op e q.expr) p.expr, depth + 1, true⟩

/-- The sequence of parts that were read in this order, the last one first. -/
def sequence (read : List Piece) : Piece :=
  match read.reverse with
  | [] => leaf .empty
  | p :: ps => joinWith .seq p ps

/-- The alternatives of a part and others. -/
def alternatives (p : Piece) (others : List Piece) : Piece := joinWith .alt p others

end Piece

/-- The expression of a set, or of a character in the case that flags ask for. -/
def Atom.toExpr (flags : Flags) : Atom → Expr
  | .literal c =>
    .char (if flags.unicode || c.toNat < 128 then flags.fold (.single c) else .single c)
  | .set s => .char s
  | .look l => .look l

/-- The characters that a dot stands for: all, or all that end no line. -/
def dotSet? (flags : Flags) : Option CharSet :=
  if !flags.unicode then none
  else if flags.dotAll then some .any
  else if flags.crlf then some (.compl (.union [.single '\n', .single '\r']))
  else some (.compl (.single '\n'))

/-- One character, class or assertion. -/
def readAtom? (s : Source) : Option (Piece × Source) := do
  let c ← s.rest.head?
  let flags := s.flags
  match c with
  | '\\' => do
    let (atom, s) ← readEscape? (s.drop 1)
    some (.leaf (atom.toExpr flags), s)
  | '.' => do
    let set ← dotSet? flags
    some (.leaf (.char set), s.drop 1)
  | '^' =>
    let look := if !flags.multiLine then .textStart
      else if flags.crlf then .lineStartCrlf else .lineStart
    some (.leaf (.look look), s.drop 1)
  | '$' =>
    let look := if !flags.multiLine then .textEnd
      else if flags.crlf then .lineEndCrlf else .lineEnd
    some (.leaf (.look look), s.drop 1)
  | '[' => do
    let (part, s) ← readClass? (2 * s.rest.length + 2) s
    some (⟨.char part.set, part.depth, true⟩, s)
  | c => some (.leaf (Atom.toExpr flags (.literal c)), s.drop 1)

/-- A lazy mark behind a repetition. -/
def dropLazy (s : Source) : Source := if s.rest.head? = some '?' then s.drop 1 else s

/-- A repetition in braces. -/
def readCounted? (s : Source) : Option (Nat × Option Nat × Source) := do
  let s := s.bump
  let (least, s) ← readDecimal? s
  let c ← s.rest.head?
  let (most, s) ←
    if c = ',' then do
      let s := s.bump
      let c ← s.rest.head?
      if c = '\x7d' then some (none, s)
      else do
        let (most, s) ← readDecimal? s
        some (some most, s)
    else some (some least, s)
  let c ← s.rest.head?
  if c ≠ '\x7d' then none
  else if most.any fun m => m < least then none
  else some (least, most, dropLazy s.bump)

/-- Sets one flag. The flag for greed changes no match. -/
def setFlag? (value : Bool) (flags : Flags) (c : Char) : Option Flags :=
  match c with
  | 'i' => some { flags with ignoreCase := value }
  | 'm' => some { flags with multiLine := value }
  | 's' => some { flags with dotAll := value }
  | 'R' => some { flags with crlf := value }
  | 'x' => some { flags with verbose := value }
  | 'u' => some { flags with unicode := value }
  | 'U' => some flags
  | _ => none

/-- Flags up to a colon or a closing parenthesis: each once, and one mark of negation, which is
not the last. Answers the flags and whether there were none. -/
def readFlags? : (seen : List Char) → (value : Bool) → Flags → List Char →
    Option (Flags × Bool × List Char)
  | _, _, _, [] => none
  | seen, value, flags, c :: rest =>
    if c = ':' ∨ c = ')' then
      if seen.head? = some '-' then none else some (flags, seen.isEmpty, c :: rest)
    else if seen.contains c then none
    else if c = '-' then readFlags? (c :: seen) false flags rest
    else
      match setFlag? value flags c with
      | some flags => readFlags? (c :: seen) value flags rest
      | none => none

/-- Whether a character may stand in the name of a group. -/
def isNameChar (first : Bool) (c : Char) : Bool :=
  c = '_' || (if first then Unicode.isAlphabetic c
    else Unicode.isAlphanumeric c || c = '.' || c = '[' || c = ']')

/-- The name of a group, up to its closing angle bracket. -/
def readName? (s : Source) : Option Source :=
  let name := s.rest.takeWhile fun c => c ≠ '>'
  let text := String.ofList name
  match s.rest.drop name.length, name with
  | '>' :: rest, c :: more =>
    if isNameChar true c && more.all (isNameChar false) && !s.names.contains text then
      some { s with rest, names := text :: s.names }
    else none
  | _, _ => none

/-- What opens a group: the flags of its inside and whether its place is kept, or flags for what
follows it. -/
inductive Opening
  | group (kept : Bool) (inside : Source)
  | flags (after : Source)

/-- Reads what opens a group, behind its parenthesis. -/
def readOpening? (s : Source) : Option Opening :=
  let s := s.skipBlanks
  if s.startsWith "?=" || s.startsWith "?!" || s.startsWith "?<=" || s.startsWith "?<!" then none
  else if s.startsWith "?P<" then (readName? (s.drop 3)).map (.group true)
  else if s.startsWith "?<" then (readName? (s.drop 2)).map (.group true)
  else if s.startsWith "?" then
    match readFlags? [] true s.flags (s.rest.drop 1) with
    | some (flags, _, ':' :: rest) => some (.group false { s with rest, flags })
    | some (flags, false, ')' :: rest) => some (.flags { s with rest, flags })
    | _ => none
  else some (.group true s)

mutual

/-- The alternatives up to the end of a group or of the pattern, at least one. The flags set in one
of them hold in the next. -/
def readAlternatives? : (fuel : Nat) → Source → Option (Piece × List Piece × Source)
  | 0, _ => none
  | fuel + 1, s => do
    let (first, s) ← readSequence? fuel [] s
    if s.rest.head? = some '|' then
      let (second, others, s) ← readAlternatives? fuel (s.drop 1)
      some (first, second :: others, s)
    else some (first, [], s)

/-- A sequence, behind the parts of it that have been read, the last one first. -/
def readSequence? : (fuel : Nat) → (read : List Piece) → Source → Option (Piece × Source)
  | 0, _, _ => none
  | fuel + 1, read, s => do
    let s := s.skipBlanks
    let repeated (least : Nat) (most : Option Nat) (s : Source) : Option (Piece × Source) :=
      match read with
      | p :: before =>
        if p.repeatable then readSequence? fuel (p.wrap (.rep p.expr least most) :: before) s
        else none
      | [] => none
    match s.rest with
    | [] => some (.sequence read, s)
    | '|' :: _ => some (.sequence read, s)
    | ')' :: _ => some (.sequence read, s)
    | '?' :: _ => repeated 0 (some 1) (dropLazy (s.drop 1))
    | '*' :: _ => repeated 0 none (dropLazy (s.drop 1))
    | '+' :: _ => repeated 1 none (dropLazy (s.drop 1))
    | '\x7b' :: _ => do
      let (least, most, s) ← readCounted? s
      repeated least most s
    | '(' :: _ =>
      let opening ← readOpening? (s.drop 1)
      match opening with
      | .flags after => readSequence? fuel (.flags :: read) after
      | .group kept inside =>
        let (first, others, after) ← readAlternatives? fuel inside
        if after.rest.head? = some ')' then
          readSequence? fuel ((Piece.alternatives first others).group kept :: read)
            { rest := after.rest.drop 1, flags := s.flags, names := after.names }
        else none
    | _ =>
      let (p, s) ← readAtom? s
      readSequence? fuel (p :: read) s

end

/-- How deep the parts of a pattern may be nested. -/
def greatestDepth : Nat := 250

/-- How large an expression may be, in bytes. -/
def greatestSize : Nat := 10 * 1024 * 1024

/-- The expression that a pattern writes. -/
def parse? (pattern : String) : Option Expr := do
  let chars := pattern.toList
  let (first, others, s) ← readAlternatives? (2 * chars.length + 2) ⟨chars, .initial, []⟩
  let p := Piece.alternatives first others
  if s.rest.isEmpty && p.depth ≤ greatestDepth && p.expr.size ≤ greatestSize then some p.expr
  else none

/-- The engine of the running program. -/
@[reducible]
def Engine.standard : Engine where
  matcher? pattern := (parse? pattern).map Expr.isMatch

end Regex

end JsonShape
