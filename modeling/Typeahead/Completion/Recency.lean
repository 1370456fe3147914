/-
# Recently accepted labels

Key definitions: `RecencyTracker`, `RecencyTracker.record`, `RecencyTracker.rank?`.
-/
namespace Typeahead

/-- The labels that were accepted last, the most recent first, at most `capacity` of
them. -/
structure RecencyTracker where
  capacity : Nat
  labels : List String
  deriving DecidableEq, Repr, Inhabited

namespace RecencyTracker

/-- No label was accepted. -/
def empty (capacity : Nat) : RecencyTracker := ⟨capacity, []⟩

/-- A label comes to the front, and the last one is dropped if there are too many. The
empty label is not remembered. -/
def record (tracker : RecencyTracker) (label : String) : RecencyTracker :=
  if label.isEmpty then tracker
  else { tracker with labels := (label :: tracker.labels.erase label).take tracker.capacity }

/-- How many labels were accepted after this one. -/
def rank? (tracker : RecencyTracker) (label : String) : Option Nat :=
  tracker.labels.findIdx? (· == label)

/-- No label is remembered any more. -/
def clear (tracker : RecencyTracker) : RecencyTracker := { tracker with labels := [] }

end RecencyTracker
end Typeahead
