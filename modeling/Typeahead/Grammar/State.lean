/-
# The state of a parse

A parse walks over the tokens of a script. Besides the place it has reached, its
state holds how deep it is nested, whether it recovers from faults, whether `in`
is an operator, the faults collected so far, and the places of parentheses that
turned out not to begin the parameters of an arrow function.

A parse that fails leaves the state as it was when the fault showed: whoever
recovers from it or tries something else starts from there.

Key definitions: `ParserState`, `Parse`, `Parse.nested`, `Parse.withIn`,
`Parse.attempt`, `Parse.collect`, `expect`, `finish`.
-/
import Typeahead.Grammar.Error
import Typeahead.Tree.Node
import Typeahead.Token.Stream

namespace Typeahead

/-- The state of a parse. -/
structure ParserState where
  stream : TokenStream
  /-- Expressions and statements that are being parsed around the current one. -/
  depth : Nat := 0
  /-- Faults of statements are collected, and the end of the input closes blocks. -/
  recovering : Bool := false
  /-- `in` is no operator here, as in the head of a `for`. -/
  noIn : Bool := false
  /-- The faults collected so far, the latest first. -/
  faults : List ParseError := []
  /-- Remember where a parameter list was tried in vain. -/
  remembersArrows : Bool := true
  /-- Where a parameter list was tried in vain, the latest first. -/
  failedArrows : List Nat := []

/-- The deepest that expressions and statements may nest. -/
def maxParseDepth : Nat := 200

namespace ParserState

/-- The state before a script is parsed. -/
def ofText (text : List Char) : ParserState := { stream := .ofText text }

/-- The current token. -/
def current (s : ParserState) : Token := s.stream.peek

/-- The kind of the current token. -/
def kind (s : ParserState) : TokenKind := s.current.kind

/-- The place among the tokens. -/
def position (s : ParserState) : Nat := s.stream.position

/-- The offset of the current token. -/
def offset (s : ParserState) : Nat := s.current.start

/-- The offset where the token before the current one stops. -/
def lastStop (s : ParserState) : Nat := (s.stream.previous?.map (·.stop)).getD 0

/-- All tokens are read. -/
def atEnd (s : ParserState) : Bool := s.stream.atEnd

/-- The current token is the punctuator `mark`. -/
def atMark (s : ParserState) (mark : Punctuator) : Bool := s.kind == .punct mark

/-- The current token is the keyword `word`. -/
def atKeyword (s : ParserState) (word : Keyword) : Bool := s.kind == .keyword word

/-- The current token is the reserved word `word`. -/
def atReserved (s : ParserState) (word : String) : Bool := s.current.isReserved word

/-- The current token may name a binding. -/
def atBindingName (s : ParserState) : Bool := s.kind.isBindingName

/-- The token after the current one. -/
def following (s : ParserState) : Token := s.stream.peekAhead 1

/-- The current token ends a statement that has no semicolon: a closing brace, the
end of the input, or the first token of a line. -/
def atImpliedSemicolon (s : ParserState) : Bool :=
  s.atMark .closeBrace || s.atEnd || s.current.afterLineBreak

/-- The state one token on. -/
def advance (s : ParserState) : ParserState := { s with stream := s.stream.advance }

/-- The fault that the current token is not of kind `expected`. -/
def unexpected (s : ParserState) (expected : TokenKind) : ParseError :=
  .unexpectedToken expected s.kind s.current.text s.offset

/-- The fault that the current token begins no expression. -/
def noExpression (s : ParserState) : ParseError :=
  .expectedExpression s.kind s.current.text s.offset

/-- The most rounds any loop over the tokens can take. -/
def rounds (s : ParserState) : Nat := s.stream.tokens.size

end ParserState

/-- A parse: from a state to a result or a fault, and the state it leaves. -/
abbrev Parse := EStateM ParseError ParserState

namespace Parse

/-- `p` one level deeper; a fault if that is too deep. -/
def nested {α : Type} (p : Parse α) : Parse α := fun s =>
  if maxParseDepth ≤ s.depth then .error (.nestingTooDeep s.offset) s
  else match p { s with depth := s.depth + 1 } with
    | .ok a t => .ok a { t with depth := t.depth - 1 }
    | .error e t => .error e { t with depth := t.depth - 1 }

/-- `p` with `in` as an operator or not; afterwards as before. -/
def withNoIn {α : Type} (noIn : Bool) (p : Parse α) : Parse α := fun s =>
  match p { s with noIn } with
  | .ok a t => .ok a { t with noIn := s.noIn }
  | .error e t => .error e { t with noIn := s.noIn }

/-- `p` with `in` as an operator. -/
def allowIn {α : Type} (p : Parse α) : Parse α := withNoIn false p

/-- The outcome of `p`, a fault included. -/
def attempt {α : Type} (p : Parse α) : Parse (Except ParseError α) := fun s =>
  match p s with
  | .ok a t => .ok (.ok a) t
  | .error e t => .ok (.error e) t

/-- The results of `step`, run until `done` holds, but at most `rounds` times. Every
round of a step reads a token or fails, so that many rounds are enough. -/
def collect {α : Type} (done : ParserState → Bool) (step : Parse (Option α)) :
    (rounds : Nat) → Parse (List α)
  | 0 => pure []
  | rounds + 1 => do
    if done (← get) then return []
    let item ← step
    let items ← collect done step rounds
    return item.toList ++ items

/-- `collect` with as many rounds as the tokens allow. -/
def collectUntil {α : Type} (done : ParserState → Bool) (step : Parse (Option α)) :
    Parse (List α) := do
  collect done step (← get).rounds

/-- Reads the current token. -/
def next : Parse Token := fun s => .ok s.current s.advance

/-- Reads the current token if it satisfies `p`. -/
def nextIf (p : ParserState → Bool) : Parse Bool := fun s =>
  if p s then .ok true s.advance else .ok false s

/-- Reads the punctuator `mark` if it is the current token. -/
def nextMark (mark : Punctuator) : Parse Bool := nextIf (·.atMark mark)

/-- Reads a token of kind `kind`, or fails. -/
def expectKind (kind : TokenKind) : Parse Token := fun s =>
  if s.kind == kind then .ok s.current s.advance else .error (s.unexpected kind) s

/-- Reads the punctuator `mark`, or fails. -/
def expect (mark : Punctuator) : Parse Token := expectKind (.punct mark)

/-- Reads the reserved word `word`, or fails. -/
def expectReserved (word : String) : Parse Token := fun s =>
  if s.atReserved word then .ok s.current s.advance else .error (s.unexpected .reserved) s

/-- Reads the name of a binding, or fails. -/
def bindingName : Parse String := fun s =>
  if s.atBindingName then .ok s.current.text s.advance else .error (s.unexpected .identifier) s

/-- Reads any word, or fails. -/
def anyWord : Parse String := fun s =>
  if s.kind.isWord then .ok s.current.text s.advance else .error (s.unexpected .identifier) s

/-- The offset of the current token. -/
def offset : Parse Nat := return (← get).offset

/-- A node from `start` to the end of the token read last. -/
def finish (start : Nat) (kind : NodeKind) : Parse Node := do
  return ⟨⟨start, max (← get).lastStop start⟩, kind⟩

/-- Ends a statement: a semicolon, or nothing where one is implied. -/
def semicolon : Parse Unit := fun s =>
  if s.atMark .semicolon then .ok () s.advance
  else if s.atImpliedSemicolon then .ok () s
  else .error (s.unexpected (.punct .semicolon)) s

end Parse
end Typeahead
