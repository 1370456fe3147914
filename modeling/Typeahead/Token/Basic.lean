/-
# Tokens

A token is a piece of a script with its kind and its place. Its text is the
source text, so a string keeps its quotes.

Key definitions: `Token`.
-/
import Typeahead.Token.Kind
import Typeahead.Text.Range

namespace Typeahead

/-- A piece of a script. -/
structure Token where
  kind : TokenKind
  text : String
  start : Nat
  stop : Nat
  /-- A line ends between the token before and this one. -/
  afterLineBreak : Bool := false
  /-- A string, template or comment that is never closed. -/
  unterminated : Bool := false
  deriving DecidableEq, Repr, Inhabited

namespace Token

/-- The end of the input at an offset. -/
def endOfInput (offset : Nat) : Token := ⟨.endOfInput, "", offset, offset, false, false⟩

/-- The token is the reserved word `word`. -/
def isReserved (t : Token) (word : String) : Bool := t.kind == .reserved && t.text == word

end Token
end Typeahead
