import JsonShape.Dict

/-!
# Reports of invalid values

A report has the shape of the value that failed: failures by member, by index, or of the two sides
of a union or of an inheritance. Every branch ends in messages.

* `Report.pathHash` flattens a report into messages by path (`.person[0].name`); the root is `.`.
  Each path stands once, at its first occurrence, and so does each message under it.
* `Report.display` writes the flattened report on one line.
-/

namespace JsonShape

/-- Why a value was rejected. -/
inductive Report
  /-- Messages about the value itself. -/
  | value (messages : List String)
  /-- Failures by member. -/
  | object (members : List (String × Report))
  /-- Failures by index. -/
  | list (items : List (Nat × Report))
  /-- Both sides of a union failed. -/
  | either (left right : Report)
  /-- Both sides of an inheritance failed. -/
  | merged (parent child : Report)

namespace Report

/-- A report of one message. -/
def message (text : String) : Report := value [text]

/-- The report of an absent member. -/
def required : Report := message "is required"

/-- Writes the failure of one item, keeping the indices ascending. -/
def insertItem (index : Nat) (report : Report) : List (Nat × Report) → List (Nat × Report)
  | [] => [(index, report)]
  | (i, r) :: rest =>
    if index < i then (index, report) :: (i, r) :: rest
    else if index = i then (index, report) :: rest
    else (i, r) :: insertItem index report rest

/-- A report by index; of two for one index the last counts. -/
def ofItems (entries : List (Nat × Report)) : Report :=
  list (entries.foldl (fun items e => insertItem e.1 e.2 items) [])

/-- A report by member; of two for one member the last counts. -/
def ofMembers (entries : List (String × Report)) : Report := object (Dict.ofList entries)

/-- Messages by path, in order. -/
abbrev PathHash := Dict (List String)

/-- The path of the value as a whole, which `collect` has as the empty text. -/
def rootPath : String := "."

/-- Adds the messages that are not there yet. -/
def addMessages (present more : List String) : List String :=
  more.foldl (fun acc m => if acc.contains m then acc else acc ++ [m]) present

/-- The path of a member. -/
def memberPath (path key : String) : String := path ++ "." ++ key

/-- The path of an item. -/
def itemPath (path : String) (index : Nat) : String :=
  path ++ "[" ++ String.ofList (Nat.toDigits 10 index) ++ "]"

mutual

/-- Adds the messages of a report that stands at a path. -/
def collect (path : String) : Report → PathHash → PathHash
  | .value messages, hash =>
    let key := if path.isEmpty then rootPath else path
    hash.insert key (addMessages ((hash.get? key).getD []) messages)
  | .object members, hash => collectMembers path members hash
  | .list items, hash => collectItems path items hash
  | .either left right, hash => collect path right (collect path left hash)
  | .merged parent child, hash => collect path child (collect path parent hash)

/-- Adds the messages of the members of a value at a path. -/
def collectMembers (path : String) : List (String × Report) → PathHash → PathHash
  | [], hash => hash
  | (key, report) :: rest, hash =>
    collectMembers path rest (collect (memberPath path key) report hash)

/-- Adds the messages of the items of a value at a path. -/
def collectItems (path : String) : List (Nat × Report) → PathHash → PathHash
  | [], hash => hash
  | (index, report) :: rest, hash =>
    collectItems path rest (collect (itemPath path index) report hash)

end

/-- The messages by path: the report flattened, from the root on. -/
def pathHash (r : Report) : PathHash := r.collect "" []

/-- The report on one line. -/
def display (r : Report) : String :=
  "; ".intercalate (r.pathHash.map fun e => e.1 ++ ": " ++ ", ".intercalate e.2)

/-- The sentence that refuses a value. -/
def refusal (r : Report) : String := "invalid value: " ++ r.display

end Report

end JsonShape
