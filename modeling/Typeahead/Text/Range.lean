/-
# Ranges of offsets

A half-open range `[start, stop)` of UTF-16 offsets. The two ends are not
ordered by the type: a range that stops where it starts, or before, is empty.

Key definitions: `TextRange`, `TextRange.contains`, `TextRange.covers`,
`TextRange.cover`.
-/
namespace Typeahead

/-- The offsets from `start` up to, not including, `stop`. -/
structure TextRange where
  start : Nat
  stop : Nat
  deriving DecidableEq, Repr, Inhabited

namespace TextRange

/-- The empty range at an offset. -/
def point (offset : Nat) : TextRange := ⟨offset, offset⟩

/-- The number of offsets in the range. -/
def length (r : TextRange) : Nat := r.stop - r.start

/-- No offset lies in the range. -/
def isEmpty (r : TextRange) : Bool := r.stop ≤ r.start

/-- The offset lies in the range. -/
def contains (r : TextRange) (offset : Nat) : Bool := r.start ≤ offset && offset < r.stop

/-- The range `s` lies inside `r`. -/
def covers (r s : TextRange) : Bool := r.start ≤ s.start && s.stop ≤ r.stop

/-- The smallest range that covers both. -/
def cover (r s : TextRange) : TextRange := ⟨min r.start s.start, max r.stop s.stop⟩

/-- The range that covers two covers the first. -/
theorem covers_cover_left (r s : TextRange) : (r.cover s).covers r := by
  simp only [covers, cover, Bool.and_eq_true]
  exact ⟨decide_eq_true (Nat.min_le_left ..), decide_eq_true (Nat.le_max_left ..)⟩

/-- The range that covers two covers the second. -/
theorem covers_cover_right (r s : TextRange) : (r.cover s).covers s := by
  simp only [covers, cover, Bool.and_eq_true]
  exact ⟨decide_eq_true (Nat.min_le_right ..), decide_eq_true (Nat.le_max_right ..)⟩

end TextRange
end Typeahead
