import JsonShape.Files.Basic

/-!
# File patterns

In a pattern, `?` stands for one character, `*` for any number of them, brackets for one of the
characters in them (or, behind `!`, one that is not), and `**` as a whole component for any number
of directories.

* `Glob.compile` reads a pattern, `Glob.matchesName` matches a name.
* `Glob.paths` lists the paths that match a pattern, each directory in the order of its names.
-/

namespace JsonShape

namespace Glob

/-- Some of the characters between brackets. -/
inductive Range
  | single (c : Char)
  | between (first last : Char)
  deriving DecidableEq

/-- A part of a pattern. -/
inductive Token
  | char (c : Char)
  | anyChar
  | anySequence
  /-- Any number of directories. -/
  | recursive
  | within (ranges : List Range)
  | except (ranges : List Range)
  deriving DecidableEq

/-- Why a pattern is refused. -/
inductive Cause
  | wildcards
  | recursiveWildcards
  | invalidRange
  deriving DecidableEq

/-- A refused pattern: the cause, and at which character. -/
structure PatternError where
  position : Nat
  cause : Cause
  deriving DecidableEq

/-- The wording of a cause. -/
def Cause.text : Cause → String
  | wildcards => "wildcards are either regular `*` or recursive `**`"
  | recursiveWildcards => "recursive wildcards must form a single path component"
  | invalidRange => "invalid range pattern"

/-- The wording of a refusal. -/
def PatternError.message (e : PatternError) : String :=
  "Pattern syntax error near position " ++ toString e.position ++ ": " ++ e.cause.text

/-- The characters between brackets. -/
def ranges : List Char → List Range
  | a :: '-' :: b :: rest => .between a b :: ranges rest
  | a :: rest => .single a :: ranges rest
  | [] => []

/-- The characters in front of the first closing bracket that is not among the first `skip`, and
those behind it. -/
def splitBracket (skip : Nat) (cs : List Char) : Option (List Char × List Char) :=
  let inside := cs.take skip ++ (cs.drop skip).takeWhile (· ≠ ']')
  match cs.drop inside.length with
  | ']' :: rest => some (inside, rest)
  | _ => none

/-- What stands between brackets, behind the opening one. -/
def readBrackets? (cs : List Char) : Option (Token × List Char) :=
  match cs with
  | '!' :: rest => do
    let (inside, rest) ← if rest.length < 2 then none else splitBracket 1 rest
    some (.except (ranges inside), rest)
  | cs => do
    let (inside, rest) ← if cs.length < 2 then none else splitBracket 1 cs
    some (.within (ranges inside), rest)

/-- The stars in front of a list of characters, and what follows them. -/
def stars : List Char → Nat × List Char
  | '*' :: rest =>
    let (n, rest) := stars rest
    (n + 1, rest)
  | cs => (0, cs)

/-- Reads a pattern from a position on, behind a character. -/
def compileFrom : (fuel position : Nat) → (before : Option Char) → List Char →
    Except PatternError (List Token)
  | 0, _, _, _ => .ok []
  | fuel + 1, position, before, cs =>
    match cs with
    | [] => .ok []
    | '?' :: rest => (compileFrom fuel (position + 1) (some '?') rest).map (.anyChar :: ·)
    | '*' :: _ =>
      let (count, rest) := stars cs
      let after := position + count
      if count = 1 then (compileFrom fuel after (some '*') rest).map (.anySequence :: ·)
      else if 2 < count then .error ⟨position + 2, .wildcards⟩
      else if before.any (· ≠ '/') then .error ⟨position - 1, .recursiveWildcards⟩
      else
        match rest with
        | [] => .ok [.recursive]
        | '/' :: rest => (compileFrom fuel (after + 1) (some '/') rest).map (.recursive :: ·)
        | _ => .error ⟨after, .recursiveWildcards⟩
    | '[' :: rest =>
      match readBrackets? rest with
      | some (token, more) =>
        (compileFrom fuel (position + (cs.length - more.length)) (some ']') more).map (token :: ·)
      | none => .error ⟨position, .invalidRange⟩
    | c :: rest => (compileFrom fuel (position + 1) (some c) rest).map (.char c :: ·)

/-- The parts of a pattern. -/
def compile (pattern : String) : Except PatternError (List Token) :=
  compileFrom (pattern.length + 1) 0 none pattern.toList

/-! ## Matching a name -/

/-- Whether a character is in a range. -/
def Range.contains (c : Char) : Range → Bool
  | single d => c = d
  | between first last => first ≤ c && c ≤ last

/-- Whether a part that stands for one character admits this one. -/
def Token.admits (c : Char) : Token → Bool
  | char d => c = d
  | anyChar => true
  | within rs => rs.any (Range.contains c)
  | except rs => !rs.any (Range.contains c)
  | anySequence | recursive => false

/-- A list and all its rests. -/
def suffixes {α : Type} : List α → List (List α)
  | [] => [[]]
  | a :: rest => (a :: rest) :: suffixes rest

/-- Whether the characters of a name match. -/
def matchesChars : List Token → List Char → Bool
  | [], cs => cs.isEmpty
  | .anySequence :: ts, cs => (suffixes cs).any (matchesChars ts)
  | .recursive :: ts, cs => (suffixes cs).any (matchesChars ts)
  | t :: ts, c :: cs => t.admits c && matchesChars ts cs
  | _ :: _, [] => false

/-- Whether a name matches. -/
def matchesName (pattern : List Token) (name : String) : Bool := matchesChars pattern name.toList

/-- The character that a part stands for, if it is the only one. -/
def Token.literal? : Token → Option Char
  | char c => some c
  | _ => none

/-- The one name that a pattern without wildcards matches. -/
def literal? (pattern : List Token) : Option String :=
  (pattern.mapM Token.literal?).map String.ofList

/-- Whether a component stands for any number of directories. -/
def isRecursive (pattern : List Token) : Bool := pattern.contains .recursive

/-! ## Walking -/

/-- A path that may match: what is left of the pattern, or nothing if the path is known to. -/
structure Candidate where
  path : String
  name : String
  isDirectory : Bool
  rest : Option (List (List Token))

variable {m : Type → Type} [Monad m] (files : Files m)

/-- A path that is known to match. -/
def found (path : String) : m Candidate := do
  let kind ← files.kind? path
  pure ⟨path, "", kind = some .directory, none⟩

/-- The entries of a directory, sorted by name, that may match a pattern. -/
def children (patterns : List (List Token)) (path : String) : m (List Candidate) := do
  match ← files.names path with
  | .error _ => pure []
  | .ok names =>
    (names.mergeSort fun a b => a ≤ b).mapM fun name => do
      let full := if FilePath.isCurrent path then name else FilePath.join path name
      let kind ← files.kind? full
      pure ⟨full, name, kind = some .directory, some patterns⟩

/-- The candidates in a directory, in the order in which they are tried. A component without
wildcards is looked up; the special names of directories match only where a point is written. -/
def candidates : List (List Token) → (path : String) → (isDirectory : Bool) → m (List Candidate)
  | [], _, _ => pure []
  | pattern :: rest, path, isDirectory => do
    let add (next : String) : m (List Candidate) := do
      if rest.isEmpty then
        let c ← found files next
        pure [c]
      else
        let kind ← files.kind? next
        candidates rest next (kind = some .directory)
    match literal? pattern with
    | some name =>
      let next := if FilePath.isCurrent path then name else FilePath.join path name
      let special := name = "." ∨ name = ".."
      let kind ← files.kind? next
      if (special ∧ isDirectory) ∨ (¬special ∧ kind.isSome) then add next else pure []
    | none =>
      if isDirectory then
        let entries ← children files (pattern :: rest) path
        let specials := if pattern.head? = some (.char '.') then
          ["..", "."].filter (matchesName pattern) else []
        let added ← specials.mapM fun name => add (FilePath.join path name)
        pure (added.flatten ++ entries)
      else pure []

/-- What is left of a pattern behind components that stand for any number of directories. -/
def dropRecursive : List (List Token) → List (List Token)
  | [] => []
  | p :: rest => if isRecursive p then dropRecursive rest else p :: rest

/-- Matches the name of a candidate against the first component of a pattern: the candidate matches,
or others behind it are to be tried. -/
def tryName (requireDirectory : Bool) (c : Candidate) :
    List (List Token) → m (Option String × List Candidate)
  | [] => pure (none, [])
  | pattern :: rest =>
    if !matchesName pattern c.name then pure (none, [])
    else if rest.isEmpty then
      pure (if !requireDirectory || c.isDirectory then some c.path else none, [])
    else do
      let more ← candidates files rest c.path c.isDirectory
      pure (none, more)

/-- Tries one candidate. A directory that any number of directories may stand for is searched
itself. -/
def tryCandidate (requireDirectory : Bool) (c : Candidate) : m (Option String × List Candidate) :=
  match c.rest with
  | none => pure (if !requireDirectory || c.isDirectory then some c.path else none, [])
  | some [] => pure (none, [])
  | some (pattern :: rest) =>
    if isRecursive pattern then
      let rest := dropRecursive rest
      if c.isDirectory then do
        let inside ← candidates files (pattern :: rest) c.path true
        if rest.isEmpty then pure (some c.path, inside)
        else do
          let (result, more) ← tryName files requireDirectory c rest
          pure (result, more ++ inside)
      else tryName files requireDirectory c rest
    else tryName files requireDirectory c (pattern :: rest)

/-- The paths that match among candidates, trying at most `steps` of them. -/
def walk (requireDirectory : Bool) : (steps : Nat) → List Candidate → m (List String)
  | 0, _ => pure []
  | _, [] => pure []
  | steps + 1, c :: todo => do
    let (result, more) ← tryCandidate files requireDirectory c
    let paths ← walk requireDirectory steps (more ++ todo)
    pure (result.toList ++ paths)

/-- The most candidates that are tried. -/
def greatestWalk : Nat := 10000000

/-- The components of a pattern behind its root. -/
def patternComponents (pattern : String) : List String :=
  let components := FilePath.components pattern
  if pattern.endsWith "/" then components.dropLast else components

/-- The paths that match a pattern. -/
def paths (pattern : String) : m (Except PatternError (List String)) :=
  match compile pattern with
  | .error e => pure (.error e)
  | .ok _ =>
    let isAbsolute := pattern.startsWith "/"
    let body := if isAbsolute then (patternComponents pattern).drop 1 else patternComponents pattern
    match body.mapM compile with
    | .error e => pure (.error e)
    | .ok patterns => do
      let start ← candidates files patterns (if isAbsolute then "/" else ".") true
      let result ← walk files (pattern.endsWith "/") greatestWalk start
      pure (.ok result)

end Glob

end JsonShape
