/-
# Parsing a script

The productions put together, and the ways to parse: a whole program, one
expression, or one statement, each of which fails at the first fault; and a
document that is being edited, which never fails but collects its faults.

Key definitions: `parseLevel`, `ParserState.run`, `program`, `document`,
`parseProgram`, `parseExpression`, `parseStatement`, `parseDocument`.
-/
import Typeahead.Grammar.Statement

namespace Typeahead

open Parse Grammar

/-- A production over the grammar of what it contains. -/
def produce (g : Grammar) : Production → Parse Node
  | .assignment => assignment g
  | .unary => unary g
  | .binary precedence => binary g precedence
  | .leftHandSide => leftHandSide g
  | .newExpression => newExpression g
  | .method isAsync => method g isAsync
  | .statement => statement g

/-- The grammar with a number of levels. Each level reads a token before it calls
on the next, so the last is reached only by a text with more tokens than levels. -/
def parseLevel : (levels : Nat) → Grammar
  | 0 => fun _ s => .error (.nestingTooDeep s.offset) s
  | levels + 1 => produce (parseLevel levels)

/-- A production with as many levels as there are tokens. -/
def parse (p : Production) : Parse Node := do
  parseLevel ((← get).rounds + 1) p

/-- Statements up to the end of the input. -/
def program : Parse Node := do
  let start ← offset
  let body ← collectUntil (·.atEnd) (some <$> parse .statement)
  return ⟨⟨start, (← get).current.stop⟩, .program body⟩

/-- Statements up to the end of the input, while recovering, and the faults in the
order in which they were met. -/
def document : Parse (Node × List ParseError) := do
  modify fun s => { s with recovering := true }
  let start ← offset
  let body ← collectUntil (·.atEnd) (statementOrSkip (parse .statement))
  let faults := (← get).faults.reverse
  modify fun s => { s with recovering := false, faults := [] }
  return (⟨⟨start, (← get).current.stop⟩, .program body⟩, faults)

/-- The result of a parse, or its fault. -/
def Parse.result {α : Type} (p : Parse α) (s : ParserState) : Except ParseError α :=
  match p s with
  | .ok a _ => .ok a
  | .error fault _ => .error fault

/-- A text as a program. -/
def parseProgram (text : List Char) : Except ParseError Node := program.result (.ofText text)

/-- The expression that a text begins with. -/
def parseExpression (text : List Char) : Except ParseError Node :=
  (parse .assignment).result (.ofText text)

/-- The statement that a text begins with. -/
def parseStatement (text : List Char) : Except ParseError Node :=
  (parse .statement).result (.ofText text)

/-- A text as a document, and its faults. -/
def parseDocument (text : List Char) : Node × List ParseError :=
  match document (.ofText text) with
  | .ok result _ => result
  | .error fault _ => (default, [fault])

end Typeahead
