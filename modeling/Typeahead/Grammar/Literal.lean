/-
# Literals, parameters and bodies

The productions that stand between brackets: arguments, arrays, objects,
parameters, and the blocks and bodies of functions. Inside brackets `in` is an
operator again.

Key definitions: `arguments`, `arrayLiteral`, `objectLiteral`, `parameterList`,
`block`, `functionRest`.
-/
import Typeahead.Grammar.Production
import Typeahead.Grammar.Recovery
import Typeahead.Number.Numeral

namespace Typeahead.Grammar

open Parse

variable (g : Grammar)

/-- Expressions separated by commas; a single one stands for itself. -/
def sequenceOf (expression : Parse Node) : Parse Node := do
  let start ← offset
  let first ← expression
  if !(← get).atMark .comma then return first
  let others ← collectUntil (!·.atMark .comma) do
    let _ ← next
    return some (← expression)
  finish start (.sequence (first :: others))

/-- Expressions separated by commas, inside other text. -/
def innerSequence : Parse Node := sequenceOf (g .assignment)

/-- A name after a dot: any word, or `#` and a word. -/
def memberName : Parse Node := do
  let start ← offset
  if ← nextMark .hash then
    let name ← anyWord
    finish start (.identifier ("#" ++ name))
  else
    let name ← anyWord
    finish start (.identifier name)

/-- An expression in square brackets. -/
def computedKey : Parse Node := do
  let _ ← expect .openBracket
  let key ← allowIn (innerSequence g)
  let _ ← expect .closeBracket
  return key

/-- Goes on to the next item of a list that ends with `close`. -/
def separator (close : Punctuator) : Parse Unit := do
  if !(← get).atMark close then
    let _ ← expect .comma

/-- `...` and an expression, or an expression. -/
def spreadOrAssignment : Parse Node := do
  let start ← offset
  if ← nextMark .ellipsis then
    let argument ← g .assignment
    finish start (.spread argument)
  else g .assignment

/-- `( a, ...b, )` -/
def arguments : Parse (List Node) := do
  let _ ← expect .openParen
  let items ← allowIn <| collectUntil (·.atMark .closeParen) do
    let item ← spreadOrAssignment g
    separator .closeParen
    return some item
  let _ ← expect .closeParen
  return items

/-- `[a, , ...b]`; a hole leaves nothing. -/
def arrayLiteral : Parse Node := do
  let start ← offset
  let _ ← expect .openBracket
  let elements ← allowIn <| collectUntil (·.atMark .closeBracket) do
    if ← nextMark .comma then return none
    let element ← spreadOrAssignment g
    separator .closeBracket
    return some element
  let _ ← expect .closeBracket
  finish start (.arrayLiteral elements)

/-- The token after the current one begins a key, so the current word is a
modifier of it. -/
def modifiesKey (s : ParserState) : Bool :=
  match s.following.kind with
  | .string | .number | .punct .openBracket | .punct .hash | .punct .asterisk => true
  | kind => kind.isWord

/-- A string or number token. -/
def literalOfToken (token : Token) : NodeKind :=
  if token.kind = .string then .stringLiteral (String.ofList (unescape token.text.toList))
  else if token.text.toList.getLast? = some 'n' then .bigIntLiteral token.text
  else .numericLiteral (numeralValue token.text.toList) token.text

/-- The key of a property and whether it is computed. -/
def propertyKey : Parse (Node × Bool) := do
  let s ← get
  let token := s.current
  match token.kind with
  | .punct .openBracket => return (← computedKey g, true)
  | .string | .number =>
    let _ ← next
    return (← finish token.start (literalOfToken token), false)
  | kind =>
    if kind.isWord then
      let _ ← next
      return (← finish token.start (.identifier token.text), false)
    else throw (s.unexpected .identifier)

/-- The value of a property whose key stands alone: the key, or with a default where
the object is a pattern. -/
def shorthandValue (key : Node) : Parse Node := do
  if ← nextMark .equals then
    let fallback ← g .assignment
    return ⟨⟨key.start, fallback.stop⟩, .assignment (.punct .equals) key fallback⟩
  else return key

/-- A modifier `get` or `set` before a key. -/
def atAccessor (s : ParserState) : Bool :=
  (s.atKeyword .getWord || s.atKeyword .setWord) && modifiesKey s

/-- A property after its modifiers. -/
def propertyFrom (start : Nat) (isAsync : Bool) : Parse Node := do
  let (key, computed) ← propertyKey g
  if (← get).atMark .openParen then
    let value ← g (.method isAsync)
    finish start (.property key value computed false true)
  else if ← nextMark .colon then
    let value ← g .assignment
    finish start (.property key value computed false false)
  else if !computed && key.identifier?.isSome then
    let value ← shorthandValue g key
    finish start (.property key value false true false)
  else throw ((← get).unexpected (.punct .colon))

/-- A property or spread of an object. -/
def objectMember : Parse Node := do
  let start ← offset
  if ← nextMark .ellipsis then
    let argument ← g .assignment
    finish start (.spread argument)
  else
    let isAsync ← nextIf fun s => s.atKeyword .asyncWord && modifiesKey s
    let isGenerator ← nextMark .asterisk
    let _ ← nextIf fun s => !isAsync && !isGenerator && atAccessor s
    propertyFrom g start isAsync

/-- `{ a, b: c, [d]: e, f() {}, ...g }` -/
def objectLiteral : Parse Node := do
  let start ← offset
  let _ ← expect .openBrace
  let properties ← allowIn <| collectUntil (·.atMark .closeBrace) do
    let property ← objectMember g
    separator .closeBrace
    return some property
  let _ ← expect .closeBrace
  finish start (.objectLiteral properties)

/-- A parameter after its `...`, if it has one. -/
def parameterFrom (start : Nat) (isRest : Bool) : Parse Node := do
  let s ← get
  let (name, pattern) ← match s.kind with
    | .punct .openBrace => pure ("", some (← objectLiteral g))
    | .punct .openBracket => pure ("", some (← arrayLiteral g))
    | _ => pure (← bindingName, none)
  let fallback ← if ← nextMark .equals then some <$> allowIn (g .assignment) else pure none
  finish start (.parameter name pattern fallback isRest)

/-- The parameters up to a closing parenthesis. After a `...` parameter no other
follows. -/
def parametersFrom : (rounds : Nat) → Parse (List Node)
  | 0 => pure []
  | rounds + 1 => do
    if (← get).atMark .closeParen then return []
    let start ← offset
    let isRest ← nextMark .ellipsis
    let parameter ← parameterFrom g start isRest
    if isRest || (← get).atMark .closeParen then return [parameter]
    let _ ← expect .comma
    let others ← parametersFrom rounds
    return parameter :: others

/-- `( a, b = 1, {c}, ...d )` -/
def parameterList : Parse (List Node) := do
  let _ ← expect .openParen
  let params ← parametersFrom g (← get).rounds
  let _ ← expect .closeParen
  return params

/-- The end of a construct in braces: its closing brace, or while recovering the
end of the input and one unit more, so that a cursor there is inside. -/
def closeBrace : Parse Nat := do
  let s ← get
  if s.recovering && s.atEnd then return s.current.stop + 1
  return (← expect .closeBrace).stop

/-- A statement of a list; nothing for one that is skipped while recovering. -/
def listedStatement : Parse (Option Node) := do
  if (← get).recovering then statementOrSkip (g .statement)
  else return some (← g .statement)

/-- Statements up to where `done` holds or the input ends. -/
def statementList (done : ParserState → Bool) : Parse (List Node) :=
  collectUntil (fun s => s.atEnd || done s) (listedStatement g)

/-- `{ statements }` -/
def block : Parse Node := do
  let start ← offset
  let _ ← expect .openBrace
  let body ← statementList g (·.atMark .closeBrace)
  let stop ← closeBrace
  return ⟨⟨start, stop⟩, .block body⟩

/-- The parameters and the body of a function. -/
def functionRest (name : Option String) (isAsync : Bool) : Parse (FunctionParts Node) := do
  let params ← parameterList g
  let body ← allowIn (block g)
  return { name, params, body, isAsync }

/-- A function as a node from `start` to the end of its body. -/
def functionNode (start : Nat) (parts : FunctionParts Node) : Node :=
  ⟨⟨start, parts.body.stop⟩, .functionExpression parts⟩

/-- The parameters and the body of a method. -/
def method (isAsync : Bool) : Parse Node := do
  let start ← offset
  return functionNode start (← functionRest g none isAsync)

end Typeahead.Grammar
