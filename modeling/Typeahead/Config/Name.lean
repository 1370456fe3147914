/-
# Names without quotes

The characters that the name of an entry is made of when it stands without quotes:
it begins with a letter or letter number of any script, `$` or `_`, and goes on with
marks, decimal digits, connecting punctuation and the two joiners as well. The signs
that count as letters in a script are none here, and a number sign that is no
decimal digit is not part of a name.

Key definitions: `isNameStart`, `isNamePart`.
Key theorem: `isNamePart_of_start`.
-/
import Typeahead.Text.Alphabetic
import Typeahead.Text.Mark
import Typeahead.Text.Numeric

namespace Typeahead.Json5

open Text

/-- A character of the category Pc: a low line or a tie. -/
def isConnector (c : Char) : Bool :=
  c == '_' || c == '\u203f' || c == '\u2040' || c == '\u2054' || c == '\ufe33' || c == '\ufe34' ||
    ('\ufe4d' ≤ c && c ≤ '\ufe4f') || c == '\uff3f'

/-- A character that may begin a name. -/
def isNameStart (c : Char) : Bool :=
  c == '$' || c == '_' || (isLetter c && !isLetterSign c) || isAddedLetter c

/-- A character that may follow in a name. -/
def isNamePart (c : Char) : Bool :=
  isNameStart c || isDecimalDigit c || isMark c || isConnector c || c == '\u200c' || c == '\u200d'

/-- What may begin a name may also follow in it. -/
theorem isNamePart_of_start {c : Char} (h : isNameStart c = true) : isNamePart c = true := by
  simp only [isNamePart, h, Bool.true_or]

end Typeahead.Json5
