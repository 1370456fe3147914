/-
# Ranges and runs of code points

A Unicode property is written as a list of ranges of code points, or of runs that
go from one code point to another in steps.

Key definitions: `inRanges`, `Run.contains`.
-/
namespace Typeahead.Text

/-- The code point lies in one of the ranges; both ends of a range belong to it. -/
def inRanges (ranges : List (Nat × Nat)) (point : Nat) : Bool :=
  ranges.any fun range => range.1 ≤ point && point ≤ range.2

/-- The code points from `first` to `last` that are `step` apart. -/
structure Run where
  first : Nat
  last : Nat
  step : Nat
  deriving DecidableEq, Repr

/-- The code point belongs to the run. -/
def Run.contains (run : Run) (point : Nat) : Bool :=
  run.first ≤ point && point ≤ run.last && (point - run.first) % run.step == 0

end Typeahead.Text
