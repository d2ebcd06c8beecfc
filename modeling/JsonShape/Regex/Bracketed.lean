import JsonShape.Regex.Escape

/-!
# Bracketed classes

A class in brackets is a union of characters, ranges, named sets and other classes, or is put
together from such unions by `&&`, `--` and `~~`, which associate to the left.

* `readClass?` reads a class and how deep it is nested.
-/

namespace JsonShape

namespace Regex

/-- The ASCII classes, by name. -/
def asciiClass? (name : String) : Option CharSet :=
  match name with
  | "alnum" => some (.union [.asciiDigit, .range 65 90, .range 97 122])
  | "alpha" => some (.union [.range 65 90, .range 97 122])
  | "ascii" => some (.range 0 127)
  | "blank" => some (.union [.range 9 9, .range 32 32])
  | "cntrl" => some (.union [.range 0 31, .range 127 127])
  | "digit" => some .asciiDigit
  | "graph" => some (.range 33 126)
  | "lower" => some (.range 97 122)
  | "print" => some (.range 32 126)
  | "punct" => some (.union [.range 33 47, .range 58 64, .range 91 96, .range 123 126])
  | "space" => some .asciiSpace
  | "upper" => some (.range 65 90)
  | "word" => some .asciiWord
  | "xdigit" => some (.union [.asciiDigit, .range 65 70, .range 97 102])
  | _ => none

/-- A set, or its complement, in the case that flags ask for. Without Unicode a complement would
hold bytes that are no characters. -/
def complementIf? (negated : Bool) (flags : Flags) (set : CharSet) : Option CharSet :=
  if !negated then some (flags.fold set)
  else if flags.unicode then some (.compl (flags.fold set))
  else none

/-- An ASCII class between brackets and colons, if one stands here. -/
def readAsciiClass? (s : Source) : Option (Bool × CharSet × Source) := do
  match s.rest with
  | '[' :: ':' :: rest =>
    let (negated, rest) := match rest with
      | '^' :: rest => (true, rest)
      | rest => (false, rest)
    let name := rest.takeWhile fun c => c ≠ ':'
    match rest.drop name.length with
    | ':' :: ']' :: rest =>
      let set ← asciiClass? (String.ofList name)
      some (negated, set, { s with rest })
    | _ => none
  | _ => none

/-- A part of a bracketed class, with the number of brackets, unions and operations that are nested
in it. -/
structure ClassPart where
  set : CharSet
  depth : Nat

/-- The union of the items of a class. One item alone is no union. -/
def ClassPart.union : List ClassPart → ClassPart
  | [] => ⟨.empty, 0⟩
  | [p] => p
  | ps => ⟨.union (ps.map ClassPart.set), (ps.map ClassPart.depth).foldl max 0 + 1⟩

/-- The operations between sets of a bracketed class. -/
inductive SetOp
  | inter
  | diff
  | symmDiff

/-- The operation that stands here, if any. -/
def setOp? (s : Source) : Option SetOp :=
  if s.startsWith "&&" then some .inter
  else if s.startsWith "--" then some .diff
  else if s.startsWith "~~" then some .symmDiff
  else none

/-- What an operation makes of its two sides. -/
def SetOp.apply : SetOp → CharSet → CharSet → CharSet
  | inter => .inter
  | diff => .diff
  | symmDiff => .symmDiff

/-- What stands to the left of the last operation and that operation, if there is one, joined to
what stands to the right. -/
def ClassPart.join (flags : Flags) (left : Option (ClassPart × SetOp)) (right : ClassPart) :
    ClassPart :=
  match left with
  | none => right
  | some (l, op) =>
    ⟨op.apply (flags.fold l.set) (flags.fold right.set), max l.depth right.depth + 1⟩

/-- One item of a bracketed class that is no bracket. -/
def readClassAtom? (s : Source) : Option (Atom × Source) := do
  let c ← s.rest.head?
  if c = '\\' then readEscape? (s.drop 1) else some (.literal c, s.drop 1)

/-- Whether a character may stand in a class. -/
def classChar? (flags : Flags) (c : Char) : Option CharSet :=
  if flags.unicode ∨ c.toNat < 128 then some (.single c) else none

/-- A range of a bracketed class, or a single item of it. -/
def readClassRange? (s : Source) : Option (CharSet × Source) := do
  let (first, s) ← readClassAtom? s
  let s := s.skipBlanks
  let c ← s.rest.head?
  let next := s.bump.rest.head?
  if c ≠ '-' ∨ next = some ']' ∨ next = some '-' then
    match first with
    | .literal c => do
      let set ← classChar? s.flags c
      some (set, s)
    | .set set => some (set, s)
    | .look _ => none
  else
    let s := s.bump
    if s.rest.isEmpty then none
    else
      let (last, s) ← readClassAtom? s
      match first, last with
      | .literal a, .literal b =>
        if a ≤ b then do
          let _ ← classChar? s.flags a
          let _ ← classChar? s.flags b
          some (.range a.toNat b.toNat, s)
        else none
      | _, _ => none

/-- The hyphens at the start of a class, and a closing bracket that stands first. -/
def readLeading? : (fuel : Nat) → (first : Bool) → Source → Option (List ClassPart × Source)
  | 0, _, _ => none
  | fuel + 1, first, s =>
    match s.rest with
    | [] => none
    | '-' :: _ => do
      let (parts, s) ← readLeading? fuel false s.bump
      some (⟨.single '-', 0⟩ :: parts, s)
    | ']' :: _ =>
      if first then
        if s.bump.rest.isEmpty then none else some ([⟨.single ']', 0⟩], s.bump)
      else some ([], s)
    | _ => some ([], s)

mutual

/-- A bracketed class, from its opening bracket on. -/
def readClass? : (fuel : Nat) → Source → Option (ClassPart × Source)
  | 0, _ => none
  | fuel + 1, s => do
    let s := s.bump
    let (negated, s) := if s.rest.head? = some '^' then (true, s.bump) else (false, s)
    let (leading, s) ← readLeading? (s.rest.length + 1) true s
    let (part, s) ← readClassItems? fuel leading none s
    let set ← complementIf? negated s.flags part.set
    some (⟨set, part.depth + 1⟩, s)

/-- The items of a class up to its closing bracket, in reverse, behind what stands to the left of
the last operation. -/
def readClassItems? : (fuel : Nat) → (items : List ClassPart) →
    (left : Option (ClassPart × SetOp)) → Source → Option (ClassPart × Source)
  | 0, _, _, _ => none
  | fuel + 1, items, left, s => do
    let s := s.skipBlanks
    let c ← s.rest.head?
    let joined := ClassPart.join s.flags left (.union items)
    if c = '[' then
      match readAsciiClass? s with
      | some (negated, set, s) =>
        let set ← complementIf? negated s.flags set
        readClassItems? fuel (⟨set, 0⟩ :: items) left s
      | none =>
        let (part, s) ← readClass? fuel s
        readClassItems? fuel (part :: items) left s
    else if c = ']' then some (joined, s.drop 1)
    else
      match setOp? s with
      | some op => readClassItems? fuel [] (some (joined, op)) (s.drop 2)
      | none =>
        let (set, s) ← readClassRange? s
        readClassItems? fuel (⟨set, 0⟩ :: items) left s

end

end Regex

end JsonShape
