/-
# What can be wrong with a script

A parse fails where a certain kind of token is missing, where an expression is
missing, or where expressions or statements nest too deeply.

Key definitions: `ParseError`, `ParseError.message`.
-/
import Typeahead.Token.Basic

namespace Typeahead

/-- A fault of a script and the offset where it shows. -/
inductive ParseError where
  | unexpectedToken (expected found : TokenKind) (text : String) (position : Nat)
  | expectedExpression (found : TokenKind) (text : String) (position : Nat)
  | nestingTooDeep (position : Nat)
  deriving DecidableEq, Repr, Inhabited

namespace ParseError

/-- The offset where the fault shows. -/
def position : ParseError → Nat
  | unexpectedToken _ _ _ position => position
  | expectedExpression _ _ position => position
  | nestingTooDeep position => position

/-- The kind that was wanted, where only one was. -/
def expected? : ParseError → Option TokenKind
  | unexpectedToken expected _ _ _ => some expected
  | _ => none

/-- The kind that was found. -/
def found? : ParseError → Option TokenKind
  | unexpectedToken _ found _ _ => some found
  | expectedExpression found _ _ => some found
  | nestingTooDeep _ => none

/-- What a message says was found and where. -/
def foundText (found : TokenKind) (text : String) (position : Nat) : String :=
  s!"{found.describe} '{text}' at offset {position}"

/-- The message of a fault. -/
def message : ParseError → String
  | unexpectedToken expected found text position =>
    "expected " ++ expected.describe ++ " but found " ++ foundText found text position
  | expectedExpression found text position =>
    "expected an expression but found " ++ foundText found text position
  | nestingTooDeep position => s!"expression nested too deeply at offset {position}"

end ParseError
end Typeahead
