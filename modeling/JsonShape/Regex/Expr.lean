import JsonShape.Regex.CharSet

/-!
# Regular expressions

An expression denotes, for a text and a place in it, the places at which a match that starts there
can end. `Expr.ends` computes them for a whole set of starts at once; a search asks whether any end
is left when every place of the text is a start.

* `Look.holds` says where an assertion about the neighbouring characters holds.
* `Expr.isMatch` says whether an expression matches somewhere in a text.
-/

namespace JsonShape

namespace Regex

/-- An assertion about a place in a text. -/
inductive Look
  | textStart
  | textEnd
  | lineStart
  | lineEnd
  /-- A line starts, where a carriage return ends a line too. -/
  | lineStartCrlf
  | lineEndCrlf
  | wordBoundary (unicode : Bool)
  | notWordBoundary (unicode : Bool)
  | wordStart (unicode : Bool)
  | wordEnd (unicode : Bool)
  | wordStartHalf (unicode : Bool)
  | wordEndHalf (unicode : Bool)

/-- Whether a character makes up words. -/
def isWordChar (unicode : Bool) (c : Char) : Bool :=
  if unicode then Unicode.isWord c else CharSet.asciiWord.contains c

namespace Look

/-- Whether an assertion holds between two characters, absent at the ends of the text. -/
def holdsBetween (before after : Option Char) : Look → Bool
  | textStart => before.isNone
  | textEnd => after.isNone
  | lineStart => before.isNone || before == some '\n'
  | lineEnd => after.isNone || after == some '\n'
  | lineStartCrlf =>
    before.isNone || before == some '\n' || (before == some '\r' && after != some '\n')
  | lineEndCrlf =>
    after.isNone || after == some '\r' || (after == some '\n' && before != some '\r')
  | wordBoundary u => before.any (isWordChar u) != after.any (isWordChar u)
  | notWordBoundary u => before.any (isWordChar u) == after.any (isWordChar u)
  | wordStart u => !before.any (isWordChar u) && after.any (isWordChar u)
  | wordEnd u => before.any (isWordChar u) && !after.any (isWordChar u)
  | wordStartHalf u => !before.any (isWordChar u)
  | wordEndHalf u => !after.any (isWordChar u)

/-- Whether an assertion holds at a place in a text. -/
def holds (look : Look) (text : Array Char) (i : Nat) : Bool :=
  look.holdsBetween (if i = 0 then none else text[i - 1]?) text[i]?

end Look

/-- A regular expression. -/
inductive Expr
  /-- The empty text. -/
  | empty
  /-- One character of a set. -/
  | char (set : CharSet)
  | look (l : Look)
  /-- A group whose place is kept. -/
  | group (a : Expr)
  | seq (a b : Expr)
  | alt (a b : Expr)
  /-- At least `least` matches in a row, and at most `most` where there is a bound. -/
  | rep (a : Expr) (least : Nat) (most : Option Nat)

/-- Places of a text, ascending and without repetition. -/
abbrev Places := List Nat

/-- The places of either list. -/
def Places.union : Places → Places → Places
  | [], js => js
  | is, [] => is
  | i :: is, j :: js =>
    if i < j then i :: Places.union is (j :: js)
    else if j < i then j :: Places.union (i :: is) js
    else i :: Places.union is js

/-- Applies a step a number of times, or until it changes nothing. -/
def iterate (step : Places → Places) : (times : Nat) → Places → Places
  | 0, is => is
  | times + 1, is =>
    let next := step is
    if next = is then is else iterate step times next

/-- The places reached by up to `times` further steps; steps that lead to no new place end it. -/
def closure (step : Places → Places) : (times : Nat) → (new reached : Places) → Places
  | 0, _, reached => reached
  | times + 1, new, reached =>
    let next := (step new).filter fun i => !reached.contains i
    if next.isEmpty then reached else closure step times next (Places.union next reached)

namespace Expr

/-- The ends of the matches that start at one of these places. -/
def ends (text : Array Char) : Expr → Places → Places
  | .empty, is => is
  | .char set, is => (is.filter fun i => text[i]?.any set.contains).map (· + 1)
  | .look l, is => is.filter fun i => l.holds text i
  | .group a, is => ends text a is
  | .seq a b, is => ends text b (ends text a is)
  | .alt a b, is => Places.union (ends text a is) (ends text b is)
  | .rep a least most, is =>
    let start := iterate (ends text a) least is
    let further := match most with
      | some most => most - least
      | none => text.size + 1
    closure (ends text a) further start start

/-- Whether the expression matches somewhere in a text. -/
def isMatch (e : Expr) (text : String) : Bool :=
  let chars := text.toList.toArray
  !(e.ends chars (List.range (chars.size + 1))).isEmpty

end Expr

end Regex

end JsonShape
