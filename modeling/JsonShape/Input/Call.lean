import JsonShape.Checked
import JsonShape.Input.Basic
import JsonShape.Json.Printer

/-!
# Checking values

`Input.call` checks a value against an input and answers the accepted value, which may differ from
the given one: members that are not declared are dropped, functions applied. A rejected value gets
a report of everything that is wrong with it, by member and by index.

* `Input.callWith` is the meaning of the shapes, given that of deferred definitions.
* `Input.callAt` looks definitions up, as many times inside one another as a number says.
* `Input.call` uses a number that is great enough for every definition that consumes a part of the
  value before it comes back to itself.
-/

namespace JsonShape

/-- What checking a value answers, and `none` where definitions lead back to themselves. -/
abbrev Outcome := Option Checked

namespace Input

variable [Regex.Engine]

/-! ## Tests of single values -/

/-- Whether a value is a member of an enumeration. -/
def isMember (values : List Json) (v : Json) : Bool :=
  values.any fun allowed => allowed.sameMember v

/-- Whether a value matches a pattern, if it is a string. -/
def fits (regex : Regex) : Json → Bool
  | .string s => regex.isMatch s
  | _ => true

/-- Whether a value lies in an interval, if it is a number. Numbers are compared after they have
been rounded to a `Binary64`. -/
def liesIn (interval : Interval) : Json → Bool
  | .number n => n.toBinary64?.all interval.contains
  | _ => true

/-- Whether a factor divides a value, if it is a number. -/
def isDivided (factor : Binary64) : Json → Bool
  | .number n => n.isMultipleOf factor
  | _ => true

/-- The message about a value outside an enumeration. -/
def enumMessage (values : List Json) : String :=
  "must be one of: " ++ ", ".intercalate (values.map Json.compact)

/-- The message about a string that does not match. -/
def patternMessage (regex : Regex) : String := "must match /" ++ regex.source ++ "/"

/-- The message about a number outside an interval. -/
def rangeMessage (interval : Interval) : String := "must be in range " ++ interval.text

/-- The message about a number that a factor does not divide. -/
def factorMessage (factor : Binary64) : String :=
  "must be a multiple of " ++ (Number.plain factor).text

/-! ## Trees -/

mutual

/-- Checks a value, where `deferred` says what lookups of definitions mean. The answer is `none`
where one of those that are asked has none. -/
def callWith (deferred : String → Json → Outcome) : Input → Json → Outcome
  | .text _, v => some (Checked.check v.isString "must be a string" v)
  | .number, v => some (Checked.check v.isNumber "must be a number" v)
  | .integer, v => some (Checked.check v.isInteger "must be an integer" v)
  | .boolean, v => some (Checked.check v.isBoolean "must be a boolean" v)
  | .null, v => some (Checked.check v.isNull "must be null" v)
  | .any, v => some (.ok v)
  | .object members, .object ms => do
    let declared := Member.distinct (callMembers deferred members ms)
    let results ← declared.mapM fun m => m.value.map fun r => (m.key, r)
    some (Checked.ofMembers results)
  | .object _, _ => some (.error (.message "must be an object"))
  | .merge parent child, v => do
    let p ← callWith deferred parent v
    let c ← callWith deferred child v
    some (Checked.merge p c)
  | .list item, .array xs => (xs.mapM (callWith deferred item)).map Checked.ofItems
  | .list _, _ => some (.error (.message "must be an array"))
  | .either left right, v => do
    match ← callWith deferred left v with
    | .ok w => some (.ok w)
    | .error l => (callWith deferred right v).map (Except.mapError (Report.either l))
  | .optional _, .null => some (.ok .null)
  | .optional inner, v => callWith deferred inner v
  | .enum inner values, v => do
    let r ← callWith deferred inner v
    some (Checked.refine r (isMember values) (enumMessage values))
  | .pattern inner regex, v => do
    let r ← callWith deferred inner v
    some (Checked.refine r (fits regex) (patternMessage regex))
  | .inRange inner interval, v => do
    let r ← callWith deferred inner v
    some (Checked.refine r (liesIn interval) (rangeMessage interval))
  | .multipleOf inner factor, v => do
    let r ← callWith deferred inner v
    some (Checked.refine r (isDivided factor) (factorMessage factor))
  | .mapped inner f, v => (callWith deferred inner v).map (Except.map f)
  | .described inner _, v => callWith deferred inner v
  | .referenced inner _, v => callWith deferred inner v
  | .defer name, v => deferred name v

/-- Checks the members of an object, declaration by declaration. -/
def callMembers (deferred : String → Json → Outcome) :
    List (Member Input) → Dict Json → List (Member (Option (Except Report (Option Json))))
  | [], _ => []
  | ⟨key, value, required, description⟩ :: rest, ms =>
    let result := match ms.get? key with
      | some v => (callWith deferred value v).map (Except.map some)
      | none => some (Checked.absent required)
    ⟨key, result, required, description⟩ :: callMembers deferred rest ms

end

/-- Checks a value, looking definitions up at most `limit` times inside one another. -/
def callAt (defs : Dict Input) : (limit : Nat) → Input → Json → Outcome
  | 0 => callWith fun _ _ => none
  | limit + 1 => callWith fun name v => do
    let i ← defs.get? name
    callAt defs limit i v

/-- Checks a value. A definition that is looked up again on the same part of the value leads back to
itself, so there are at most as many lookups as definitions on each level of the value, and the
limit of `callAt` changes no answer (`call_eq`). -/
def call (defs : Dict Input) (i : Input) (v : Json) : Outcome :=
  callAt defs (defs.length * (v.depth + 1)) i v

end Input

end JsonShape
