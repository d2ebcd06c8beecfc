import JsonShape.Regex.Expr

/-!
# The size of an expression

An expression is run as an automaton over bytes, whose states take some room. The size of an
expression is what its automaton takes, in bytes. It is an estimate for sets with characters outside
ASCII, and for those alone.

* `CharSet.asciiRuns` and `CharSet.runCount` count the runs of code points that make up a set.
* `Expr.size` is the size of an expression, in which a repetition counts as often as it may have to
  be laid out.
-/

namespace JsonShape

namespace Regex

/-- What one state takes. -/
def stateSize : Nat := 32

/-- What a state takes more for each set of bytes that leads on from it, where there are several. -/
def branchSize : Nat := 8

/-- What a choice takes more for each of its ways. -/
def choiceSize : Nat := 4

namespace CharSet

mutual

/-- Whether all members are in ASCII, as far as the form of a set tells. -/
def isAscii : CharSet → Bool
  | .range _ last => last < 128
  | .union members => areAscii members
  | .inter a b => isAscii a || isAscii b
  | .diff a _ => isAscii a
  | .symmDiff a b => isAscii a && isAscii b
  -- the letters k and s have case variants outside ASCII
  | .anyCase a =>
    isAscii a && !(anyCase a).contains (Char.ofNat 0x212A) &&
      !(anyCase a).contains (Char.ofNat 0x17F)
  | _ => false

/-- Whether all members of several sets are in ASCII. -/
def areAscii : List CharSet → Bool
  | [] => true
  | a :: rest => isAscii a && areAscii rest

end

/-- How many runs of code points make up a set in ASCII. -/
def asciiRuns (set : CharSet) : Nat :=
  let has (n : Nat) : Bool := set.contains (Char.ofNat n)
  ((List.range 128).filter fun n => has n && (n = 0 || !has (n - 1))).length

mutual

/-- How many runs of code points make up a set, about. A complement reaches to the last code point,
across all lengths of encoded characters, which counts as fifteen runs more. -/
def runCount : CharSet → Nat
  | .range _ _ => 1
  | .categories names => Unicode.categoryRuns.count names
  | .script code => Unicode.scriptRuns.count [code]
  | .scriptExtension code => Unicode.scriptRuns.count [code]
  | .listed names exceptions => Unicode.categoryRuns.count names + exceptions.bounds.length
  | .alphabetic => Unicode.categoryRuns.count Unicode.letters
  | .lowercase => Unicode.categoryRuns.count ["Ll"]
  | .uppercase => Unicode.categoryRuns.count ["Lu"]
  | .whiteSpace => Unicode.whiteSpace.bounds.length
  | .word => Unicode.categoryRuns.count (Unicode.letters ++ ["Mn", "Mc", "Me", "Nd", "Nl", "Pc"])
  | .union members => runCounts members
  | .inter a b => min (runCount a) (runCount b)
  | .diff a b => runCount a + runCount b
  | .symmDiff a b => runCount a + runCount b
  | .compl a => runCount a + 15
  | .anyCase a => runCount a

/-- How many runs of code points make up several sets. -/
def runCounts : List CharSet → Nat
  | [] => 0
  | a :: rest => runCount a + runCounts rest

end

/-- What a set takes: a state for each byte of a single character, one state with its branches for
sets in ASCII, and about 62 bytes for each run of another set. -/
def size : CharSet → Nat
  | range first last =>
    if first = last then stateSize * (Char.ofNat first).utf8Size
    else if last < 128 then 2 * stateSize + branchSize
    else 2 * stateSize + 62
  | set =>
    if set.isAscii then 2 * stateSize + branchSize * set.asciiRuns
    else 2 * stateSize + 62 * set.runCount

end CharSet

namespace Expr

/-- Whether an expression matches the empty text at most. -/
def isZeroWidth : Expr → Bool
  | empty => true
  | char _ => false
  | look _ => true
  | group a => a.isZeroWidth
  | seq a b => a.isZeroWidth && b.isZeroWidth
  | alt a b => a.isZeroWidth && b.isZeroWidth
  | rep a _ most => a.isZeroWidth || most == some 0

/-- What an expression takes. A group has a state at either end, alternatives share their first
and their last state, and a repetition of the empty text is laid out once. -/
def size : Expr → Nat
  | empty => stateSize
  | char set => set.size
  | look _ => stateSize
  | group a => a.size + 2 * stateSize
  | seq a b => a.size + b.size
  | alt (alt a b) c => (alt a b).size + c.size + choiceSize
  | alt a b => a.size + b.size + 2 * stateSize + 2 * choiceSize
  | rep a least most =>
    let choice := stateSize + 2 * choiceSize
    if a.isZeroWidth then a.size + choice
    else
      match most with
      | none => max least 1 * a.size + choice
      | some most =>
        if least = most then least * a.size
        else least * a.size + (most - least) * (a.size + choice) + stateSize

end Expr

end Regex

end JsonShape
