/-
# Identifiers

The characters a name is made of: letters of any script, `_` and `$`; after the
first also numbers and the two joiners U+200C and U+200D.

Key definitions: `isIdentifierStart`, `isIdentifierPart`, `isIdentifier`.
Key theorem: `isIdentifierPart_of_start`.
-/
import Typeahead.Text.Alphabetic
import Typeahead.Text.Numeric

namespace Typeahead.Text

/-- A character that may begin a name. -/
def isIdentifierStart (c : Char) : Bool := c == '_' || c == '$' || isLetter c

/-- A character that may follow in a name. -/
def isIdentifierPart (c : Char) : Bool :=
  c == '_' || c == '$' || isLetter c || isNumber c || c == '\u200c' || c == '\u200d'

/-- A text that is one name. -/
def isIdentifier : List Char → Bool
  | [] => false
  | c :: cs => isIdentifierStart c && cs.all isIdentifierPart

/-- What may begin a name may also follow in it. -/
theorem isIdentifierPart_of_start {c : Char} (h : isIdentifierStart c = true) :
    isIdentifierPart c = true := by
  simp only [isIdentifierStart, Bool.or_eq_true] at h
  simp only [isIdentifierPart, Bool.or_eq_true]
  exact .inl (.inl (.inl h))

end Typeahead.Text
