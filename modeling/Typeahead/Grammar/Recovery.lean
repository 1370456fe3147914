/-
# Going on after a fault

In a text that is being edited a statement that does not parse is skipped: first
to the match of every brace it opened, then up to a semicolon, which is skipped
too, a closing brace, or a token that begins a line. A class element is skipped
in the same way.

Key definitions: `skipRest`, `skipStatement`, `skipElement`, `statementOrSkip`.
-/
import Typeahead.Grammar.State

namespace Typeahead

/-- What a token adds to the number of open braces. -/
def braceStep (token : Token) : Int :=
  if token.kind = .punct .openBrace then 1
  else if token.kind = .punct .closeBrace then -1
  else 0

/-- Skips to where a statement can start, with `braces` braces still open. -/
def skipRest : (rounds : Nat) → (braces : Int) → ParserState → ParserState
  | 0, _, s => s
  | rounds + 1, braces, s =>
    if s.atEnd then s
    else if s.atMark .openBrace then skipRest rounds (braces + 1) s.advance
    else if braces > 0 then skipRest rounds (braces + braceStep s.current) s.advance
    else if s.atMark .closeBrace then s
    else if s.atMark .semicolon then s.advance
    else if s.current.afterLineBreak then s
    else skipRest rounds braces s.advance

/-- Skips what is left of a statement that began at `start`. A statement that read
no token loses its first. -/
def skipStatement (start : Nat) (s : ParserState) : ParserState :=
  let opened := (s.stream.tokens.extract start s.position).foldl
    (fun braces token => braces + braceStep token) 0
  if s.position = start && !s.atEnd then
    skipRest s.rounds (opened + if s.atMark .openBrace then 1 else 0) s.advance
  else skipRest s.rounds opened s

/-- Skips what is left of a class element that began at `start`. -/
def skipElement (start : Nat) (s : ParserState) : ParserState :=
  skipRest s.rounds 0 (if s.position = start then s.advance else s)

/-- Collects a fault. -/
def ParserState.report (s : ParserState) (fault : ParseError) : ParserState :=
  { s with faults := fault :: s.faults }

/-- A statement, or nothing if it does not parse and is skipped. -/
def statementOrSkip (statement : Parse Node) : Parse (Option Node) := do
  let start := (← get).position
  match ← Parse.attempt statement with
  | .ok node => return some node
  | .error fault =>
    modify fun s => skipStatement start (s.report fault)
    return none

end Typeahead
