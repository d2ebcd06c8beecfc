import JsonShape.Json.Basic

/-!
# Intervals of numbers

An interval has two ends, each of them absent, included or excluded.

* `Interval.contains` decides membership.
* `Interval.text` writes an interval as in mathematics: `[0, 10]`, `(0, ∞)`.
* `Interval.keywords` documents it in a schema fragment.
-/

namespace JsonShape

/-- One end of an interval. -/
inductive Endpoint
  | unbounded
  | included (x : Binary64)
  | excluded (x : Binary64)
  deriving DecidableEq

/-- The numbers between two ends. -/
structure Interval where
  lower : Endpoint
  upper : Endpoint
  deriving DecidableEq

namespace Interval

/-- Every number. -/
def full : Interval := ⟨.unbounded, .unbounded⟩

/-- Whether a number lies above a lower end. -/
def above (x : Binary64) : Endpoint → Bool
  | .unbounded => true
  | .included least => least.le x
  | .excluded bound => bound.lt x

/-- Whether a number lies below an upper end. -/
def below (x : Binary64) : Endpoint → Bool
  | .unbounded => true
  | .included greatest => x.le greatest
  | .excluded bound => x.lt bound

/-- Whether a number lies in the interval. -/
def contains (i : Interval) (x : Binary64) : Bool := above x i.lower && below x i.upper

/-- The text of an end, whole numbers without a fraction. -/
def endText (x : Binary64) : String := (Number.plain x).text

/-- The lower end as it is written. -/
def lowerText : Endpoint → String
  | .unbounded => "(-∞"
  | .included x => "[" ++ endText x
  | .excluded x => "(" ++ endText x

/-- The upper end as it is written. -/
def upperText : Endpoint → String
  | .unbounded => "∞)"
  | .included x => endText x ++ "]"
  | .excluded x => endText x ++ ")"

/-- The interval as it is written. -/
def text (i : Interval) : String := lowerText i.lower ++ ", " ++ upperText i.upper

/-- The keywords of one end: the bound, and whether it is excluded. -/
def endKeywords (bound strict : String) : Endpoint → Dict Json
  | .unbounded => []
  | .included x => [(bound, .number (.plain x))]
  | .excluded x => [(bound, .number (.plain x)), (strict, .bool true)]

/-- The keywords of the interval: `minimum` and `maximum`, and beside a bound that is excluded
`exclusiveMinimum` or `exclusiveMaximum`. -/
def keywords (i : Interval) : Dict Json :=
  endKeywords "minimum" "exclusiveMinimum" i.lower ++
    endKeywords "maximum" "exclusiveMaximum" i.upper

end Interval

end JsonShape
