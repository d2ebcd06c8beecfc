/-!
# Regular expressions

Which texts are patterns and what a pattern matches is not laid down here: it is up to an engine,
of which nothing is assumed. Inputs, registries and all that is said of them hold for any engine.

* `Regex.Engine` is an engine.
* `Regex.compile?` reads a pattern; a `Regex` is a pattern that has been read. It is read from its
  text alone: options that stand beside a text are no part of a pattern.
-/

namespace JsonShape

/-- An engine for regular expressions. -/
class Regex.Engine where
  /-- Whether a pattern matches somewhere in a text; `none` for a text that is no valid pattern. -/
  matcher? : (pattern : String) → Option (String → Bool)

/-- A valid pattern of an engine. -/
structure Regex [Regex.Engine] where
  /-- The text of the pattern. -/
  source : String
  /-- Whether the pattern matches somewhere in a text. -/
  isMatch : String → Bool
  /-- What the pattern matches is what the engine says of its text. -/
  matcher?_source : Regex.Engine.matcher? source = some isMatch

namespace Regex

variable [Engine]

/-- Reads a pattern, if it is valid. -/
def compile? (source : String) : Option Regex :=
  match h : Engine.matcher? source with
  | some isMatch => some ⟨source, isMatch, h⟩
  | none => none

/-- The text of a pattern is kept with it. -/
theorem source_of_compile? {text : String} {regex : Regex} (h : compile? text = some regex) :
    regex.source = text := by
  unfold compile? at h
  split at h
  · rw [← Option.some.inj h]
  · cases h

/-- A pattern is what its text is read as. -/
theorem compile?_source (r : Regex) : compile? r.source = some r := by
  unfold compile?
  split
  · next isMatch h =>
    obtain ⟨source, isMatch', h'⟩ := r
    obtain rfl : isMatch' = isMatch := Option.some.inj (h'.symm.trans h)
    rfl
  · next h => exact absurd (r.matcher?_source.symm.trans h) (by simp)

end Regex

end JsonShape
