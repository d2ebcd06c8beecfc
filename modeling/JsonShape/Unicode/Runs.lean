/-!
# Tables over code points

A table is written as text. `Runs` cuts the whole range of code points into runs of one value each;
a run is the number of its code points, in base 36 with lower-case letters, and the value, which
starts with an upper-case letter. `Ranges` is a set: in turn, how many code points are left out and
how many belong to it.
-/

namespace JsonShape

namespace Unicode

/-- The value of a digit in base 36. -/
def digitValue? (c : Char) : Option Nat :=
  if '0' ≤ c ∧ c ≤ '9' then some (c.toNat - '0'.toNat)
  else if 'a' ≤ c ∧ c ≤ 'z' then some (c.toNat - 'a'.toNat + 10)
  else none

/-- The number that digits write in base 36. -/
def readNumeral (digits : List Char) : Nat :=
  digits.foldl (fun n c => n * 36 + (digitValue? c).getD 0) 0

/-- The first code points of runs and their values. -/
structure Runs where
  starts : Array Nat
  values : Array String

namespace Runs

/-- What is gathered while runs are read: the digits of a length, the letters of a value, where the
run starts, and the runs before. -/
structure State where
  digits : List Char
  letters : List Char
  start : Nat
  starts : Array Nat
  values : Array String

/-- Ends the run being read. -/
def State.close (s : State) : State :=
  if s.letters.isEmpty then s
  else
    { digits := [], letters := [], start := s.start + readNumeral s.digits.reverse,
      starts := s.starts.push s.start, values := s.values.push (String.ofList s.letters.reverse) }

/-- Reads one character. The value of a run has `width` letters. -/
def State.add (width : Nat) (s : State) (c : Char) : State :=
  if s.letters.length = width then { s.close with digits := [c] }
  else if s.letters.isEmpty && (digitValue? c).isSome then { s with digits := c :: s.digits }
  else { s with letters := c :: s.letters }

/-- The runs that lines of text write. -/
def decodeWidth (width : Nat) (lines : List String) : Runs :=
  let chars := lines.flatMap String.toList
  let s := (chars.foldl (State.add width) ⟨[], [], 0, #[], #[]⟩).close
  ⟨s.starts, s.values⟩

/-- The place of the last start that is not above `n`, between two places, within some halvings. -/
def search (starts : Array Nat) (n : Nat) : (halvings low high : Nat) → Nat
  | 0, low, _ => low
  | halvings + 1, low, high =>
    if high ≤ low + 1 then low
    else
      let middle := (low + high) / 2
      if (starts[middle]?).getD 0 ≤ n then search starts n halvings middle high
      else search starts n halvings low middle

/-- The value at a code point. -/
def get (r : Runs) (n : Nat) : String :=
  (r.values[search r.starts n 32 0 r.starts.size]?).getD ""

/-- How many runs there are of one of these values, neighbours taken together. -/
def count (r : Runs) (values : List String) : Nat :=
  let step := fun (n, inside) v =>
    let member := values.contains v
    (if member && !inside then n + 1 else n, member)
  (r.values.foldl step (0, false)).1

end Runs

/-- A set of code points, as ranges with their first and last members. -/
structure Ranges where
  bounds : List (Nat × Nat)

namespace Ranges

/-- Reads pairs of a gap and a length from a place on. -/
def place : (start : Nat) → List Nat → List (Nat × Nat)
  | start, gap :: length :: rest =>
    (start + gap, start + gap + length - 1) :: place (start + gap + length) rest
  | _, _ => []

/-- The set that lines of text write. -/
def decode (lines : List String) : Ranges :=
  let words := lines.flatMap fun l => (l.splitOn " ").filter fun w => !w.isEmpty
  ⟨place 0 (words.map fun w => readNumeral w.toList)⟩

/-- Whether a code point is in the set. -/
def contains (r : Ranges) (n : Nat) : Bool := r.bounds.any fun b => b.1 ≤ n && n ≤ b.2

end Ranges

end Unicode

end JsonShape
