import JsonShape.Json.Basic
import JsonShape.Report

/-!
# Checked values

Checking a value answers the accepted value or a report. The functions here put the result for a
value together from those for its parts, so that every failing part is reported.

* `Checked.ofItems` and `Checked.ofMembers` accept an array or object whose parts are all accepted,
  and otherwise report exactly the failing ones, in order.
* `Checked.merge` joins the results of two descriptions of one object.
-/

namespace JsonShape

/-- An accepted value, or why a value was rejected. -/
abbrev Checked := Except Report Json

namespace Checked

/-- Accepts a value, or rejects it with a message. -/
def check (accepted : Bool) (message : String) (v : Json) : Checked :=
  if accepted then .ok v else .error (.message message)

/-- The reports among results, by index from `i` on. -/
def failures : (i : Nat) → List Checked → List (Nat × Report)
  | _, [] => []
  | i, .ok _ :: rest => failures (i + 1) rest
  | i, .error report :: rest => (i, report) :: failures (i + 1) rest

/-- The accepted values among results. -/
def accepted : List Checked → List Json
  | [] => []
  | .ok v :: rest => v :: accepted rest
  | .error _ :: rest => accepted rest

/-- The result for an array, from those for its items: all that were accepted, or the `failures`. -/
def ofItems (results : List Checked) : Checked :=
  match failures 0 results with
  | [] => .ok (.array (accepted results))
  | problems => .error (.list problems)

/-- The reports among the results for members. -/
def memberFailures : List (String × Except Report (Option Json)) → List (String × Report)
  | [] => []
  | (_, .ok _) :: rest => memberFailures rest
  | (key, .error report) :: rest => (key, report) :: memberFailures rest

/-- The accepted members that are present. -/
def acceptedMembers : List (String × Except Report (Option Json)) → List (String × Json)
  | [] => []
  | (key, .ok (some v)) :: rest => (key, v) :: acceptedMembers rest
  | _ :: rest => acceptedMembers rest

/-- The result for an object, from those for its members: all that were accepted and are there, or
the `memberFailures`. -/
def ofMembers (results : List (String × Except Report (Option Json))) : Checked :=
  match memberFailures results with
  | [] => .ok (.object (acceptedMembers results))
  | problems => .error (.object problems)

/-- The result for an absent member: `none` where it may be left out. -/
def absent (required : Bool) : Except Report (Option Json) :=
  if required then .error .required else .ok none

/-- The result of an inheritance: the value of the child laid over that of the parent by
`Json.merge`, or the reports of the sides that fail. -/
def merge : Checked → Checked → Checked
  | .ok parent, .ok child => .ok (parent.merge child)
  | .error parent, .ok _ => .error parent
  | .ok _, .error child => .error child
  | .error parent, .error child => .error (.merged parent child)

/-- Refuses an accepted value that fails `test`; what was rejected before keeps its report. -/
def refine (result : Checked) (test : Json → Bool) (message : String) :
    Checked :=
  match result with
  | .ok v => check (test v) message v
  | .error report => .error report

end Checked

end JsonShape
