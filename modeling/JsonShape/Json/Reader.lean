import JsonShape.Json.Token

/-!
# Reading JSON text

The reader goes through a text once and stops at the first error, which it reports with its
position and with the path of the value that was being read.

* `readRaw` reads one value and keeps every member of an object, names that repeat included.
* `collapse` leaves the last value of a repeated name, at its first place.
* `parse?` reads a text that holds one value and nothing else.

Arrays and objects may be nested up to a limit, one less than `defaultDepth`.
-/

namespace JsonShape

namespace Json

/-- A text that could not be read. -/
structure Fault where
  /-- The value that was being read. -/
  path : Path
  cause : SyntaxError
  position : Position

/-- What a reader of values answers. -/
abbrev Read (α : Type) := Except Fault (α × Cursor)

/-- A token reader's answer while the value at a path, given in reverse, is read. -/
def at_ {α : Type} (path : Path) (r : Scan α) : Read α :=
  match r with
  | .ok x => .ok x
  | .error (e, p) => .error ⟨path.reverse, e, p⟩

/-- Arrays and objects nested as deep as this are refused. -/
def defaultDepth : Nat := 128

/-- The colon behind a member's name. -/
def readColon (c : Cursor) : Scan Unit :=
  let c := c.skipBlanks
  match c.peek? with
  | some 58 => .ok ((), c.skip)
  | some _ => failAhead c .expectedColon
  | none => failAhead c .endInObject

/-- Whether another item follows, with the cursor in front of it or of the closing bracket. -/
def moreItems (first : Bool) (c : Cursor) : Scan Bool :=
  let c := c.skipBlanks
  match c.peek? with
  | none => failAhead c .endInList
  | some 93 => .ok (false, c)
  | some b =>
    if first then .ok (true, c)
    else if b = 44 then
      let c := c.skip.skipBlanks
      match c.peek? with
      | none => failAhead c .endInValue
      | some 93 => failAhead c .trailingComma
      | some _ => .ok (true, c)
    else failAhead c .expectedListCommaOrEnd

/-- The name that has to start at the cursor. -/
def quotedName (c : Cursor) : Scan (Option String) :=
  match c.peek? with
  | none => failAhead c .endInValue
  | some 34 =>
    match readString c.skip with
    | .ok (name, c) => .ok (some name, c)
    | .error e => .error e
  | some 125 => failAhead c .trailingComma
  | some _ => failAhead c .nameNotString

/-- The name of the next member, if another follows; otherwise the cursor stands in front of the
closing brace. -/
def nextName (first : Bool) (c : Cursor) : Scan (Option String) :=
  let c := c.skipBlanks
  match c.peek? with
  | none => failAhead c .endInObject
  | some 125 => .ok (none, c)
  | some b =>
    if first then quotedName c
    else if b = 44 then quotedName c.skip.skipBlanks
    else failAhead c .expectedObjectCommaOrEnd

mutual

/-- One value at a path, given in reverse. `depth` is how deep arrays and objects may still nest,
`fuel` bounds the number of steps. -/
def readRawAt : (fuel depth : Nat) → Path → Cursor → Except Fault (Json × Cursor)
  | 0, _, path, c => at_ path (failAhead c .tooDeep)
  | fuel + 1, depth, path, c =>
    let c := c.skipBlanks
    match c.peek? with
    | none => at_ path (failAhead c .endInValue)
    | some 110 => do
      let (_, c) ← at_ path (readWord [117, 108, 108] c.skip)
      .ok (.null, c)
    | some 116 => do
      let (_, c) ← at_ path (readWord [114, 117, 101] c.skip)
      .ok (.bool true, c)
    | some 102 => do
      let (_, c) ← at_ path (readWord [97, 108, 115, 101] c.skip)
      .ok (.bool false, c)
    | some 34 => do
      let (s, c) ← at_ path (readString c.skip)
      .ok (.string s, c)
    | some 45 => do
      let (n, c) ← at_ path (readNumber true c.skip)
      .ok (.number n, c)
    | some 91 =>
      if depth ≤ 1 then at_ path (failAhead c .tooDeep)
      else do
        let (xs, c) ← readItems fuel (depth - 1) path 0 c.skip
        .ok (.array xs, c.skip)
    | some 123 =>
      if depth ≤ 1 then at_ path (failAhead c .tooDeep)
      else do
        let (ms, c) ← readMembers fuel (depth - 1) path true c.skip
        .ok (.object ms, c.skip)
    | some b =>
      if (digit? b).isSome then do
        let (n, c) ← at_ path (readNumber false c)
        .ok (.number n, c)
      else at_ path (failAhead c .expectedValue)

/-- The items from index `i` on, with the cursor in front of the closing bracket. -/
def readItems : (fuel depth : Nat) → Path → (i : Nat) → Cursor →
    Except Fault (List Json × Cursor)
  | 0, _, path, _, c => at_ path (failAhead c .tooDeep)
  | fuel + 1, depth, path, i, c => do
    let (more, c) ← at_ path (moreItems (i = 0) c)
    if more then
      let (x, c) ← readRawAt fuel depth (.index i :: path) c
      let (xs, c) ← readItems fuel depth path (i + 1) c
      .ok (x :: xs, c)
    else .ok ([], c)

/-- The members that follow, with the cursor in front of the closing brace. -/
def readMembers : (fuel depth : Nat) → Path → (first : Bool) → Cursor →
    Except Fault (List (String × Json) × Cursor)
  | 0, _, path, _, c => at_ path (failAhead c .tooDeep)
  | fuel + 1, depth, path, first, c => do
    let (name?, c) ← at_ (.unknown :: path) (nextName first c)
    match name? with
    | none => .ok ([], c)
    | some name =>
      let (_, c) ← at_ path (readColon c)
      let (x, c) ← readRawAt fuel depth (.key name :: path) c
      let (ms, c) ← readMembers fuel depth path false c
      .ok ((name, x) :: ms, c)

end

/-- One value at a path, given in reverse, with every member of its objects. -/
def readRaw (depth : Nat) (path : Path) (c : Cursor) : Read Json :=
  readRawAt (2 * c.rest.length + 2) depth path c

mutual

/-- The value in which a repeated name keeps its first place and its last value. -/
def collapse : Json → Json
  | .array xs => .array (collapseItems xs)
  | .object ms => .object (Dict.ofList (collapseMembers ms))
  | v => v

/-- The items, each collapsed. -/
def collapseItems : List Json → List Json
  | [] => []
  | x :: rest => x.collapse :: collapseItems rest

/-- The members, each collapsed, in their order. -/
def collapseMembers : List (String × Json) → List (String × Json)
  | [] => []
  | (k, x) :: rest => (k, x.collapse) :: collapseMembers rest

end

/-- The value a text holds, if it holds one value and nothing else. -/
def parseBytes (depth : Nat) (bytes : List UInt8) : Except Fault Json := do
  let (v, c) ← readRaw depth [] (.ofBytes bytes)
  let c := c.skipBlanks
  if c.rest.isEmpty then .ok v.collapse else .error ⟨[], .trailingCharacters, c.ahead⟩

/-- The value a text of characters holds. -/
def parse (s : String) : Except Fault Json := parseBytes defaultDepth s.toUTF8.toList

end Json

end JsonShape
