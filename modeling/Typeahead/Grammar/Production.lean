/-
# Productions that call each other

The grammar is recursive: an argument is an expression, a function body holds
statements. A production is written against a `Grammar`, which says how to parse
what it contains; every such call comes after at least one token is read. So a
grammar whose calls all go to a grammar of one level less parses any script with
as many levels as it has tokens.

Key definitions: `Production`, `Grammar`.
-/
import Typeahead.Grammar.State

namespace Typeahead

/-- What one production calls on another for. -/
inductive Production where
  | assignment
  | unary
  /-- Operators that bind at least as tightly as `precedence`. -/
  | binary (precedence : Nat)
  | leftHandSide
  | newExpression
  /-- The parameters and the body of a method of an object. -/
  | method (isAsync : Bool)
  | statement
  deriving DecidableEq, Repr

/-- How to parse each production. -/
abbrev Grammar := Production → Parse Node

end Typeahead
