/-
# Quoted text

Whether the next character of a text stands in quotes. Quotes are closed by the mark
that opened them, and a backslash in quotes keeps the character after it from
closing them. No character ends quotes that are left open.

Key definitions: `Quoting`, `Quoting.next`, `Quoting.after`.
-/
namespace Typeahead.Text

/-- A quotation mark. -/
def isQuote (c : Char) : Bool := c == '\x27' || c == '\x22' || c == '\x60'

/-- Where the next character stands: outside of quotes, between two marks, or after a
backslash between them. -/
inductive Quoting where
  | outside
  | between (mark : Char)
  | escaped (mark : Char)
  deriving DecidableEq, Repr, Inhabited

namespace Quoting

/-- Where the character after the given one stands. -/
def next : Quoting → Char → Quoting
  | .outside, c => if isQuote c then .between c else .outside
  | .between mark, c => if c = '\\' then .escaped mark else if c = mark then .outside else .between mark
  | .escaped mark, _ => .between mark

/-- Where the character after a text stands. -/
def after (q : Quoting) (text : List Char) : Quoting := text.foldl next q

end Quoting

/-- An opening bracket. -/
def isOpening (c : Char) : Bool := c == '(' || c == '[' || c == '\x7b'

/-- A closing bracket. -/
def isClosing (c : Char) : Bool := c == ')' || c == ']' || c == '\x7d'

end Typeahead.Text
