/-
# Expressions

From primary expressions through calls and members, unary and binary operators to
assignments. Binary operators are read by precedence climbing: `**` groups to the
right, all others to the left.

A parenthesis begins either the parameters of an arrow function or an expression.
The parameters are tried first; if no `=>` follows them the parse returns to the
parenthesis and remembers it, so that it tries each at most once.

Key definitions: `binaryPrecedence?`, `arrowParameters?`, `primary`,
`leftHandSide`, `unary`, `binary`, `assignment`.
-/
import Typeahead.Grammar.Class

namespace Typeahead.Grammar

open Parse

/-- How tightly a binary operator binds, from 1 for `||` to 11 for `**`. -/
def binaryPrecedence? (noIn : Bool) : TokenKind → Option Nat
  | .keyword .inWord => if noIn then none else some 7
  | .keyword .instanceofWord => some 7
  | .punct mark => match mark with
    | .barBar | .questionQuestion => some 1
    | .ampersandAmpersand => some 2
    | .bar => some 3
    | .circumflex => some 4
    | .ampersand => some 5
    | .equalsEquals | .exclamationEquals | .equalsEqualsEquals | .exclamationEqualsEquals => some 6
    | .lessThan | .greaterThan | .lessThanEquals | .greaterThanEquals => some 7
    | .lessThanLessThan | .greaterThanGreaterThan | .greaterThanGreaterThanGreaterThan => some 8
    | .plus | .minus => some 9
    | .asterisk | .slash | .percent => some 10
    | .asteriskAsterisk => some 11
    | _ => none
  | _ => none

/-- `&&`, `||` and `??`, which may leave their right operand out. -/
def isLogicalOperator (kind : TokenKind) : Bool :=
  kind == .punct .ampersandAmpersand || kind == .punct .barBar || kind == .punct .questionQuestion

/-- The node of a binary operator. -/
def binaryNode (operator : TokenKind) (left right : Node) : NodeKind :=
  if isLogicalOperator operator then .logical operator left right else .binary operator left right

/-- The unary operator that a token is. -/
def unaryOperator? (token : Token) : Option UnaryOperator :=
  match token.kind with
  | .punct .exclamation => some .not
  | .punct .tilde => some .bitwiseNot
  | .punct .plus => some .plus
  | .punct .minus => some .minus
  | .keyword .typeofWord => some .typeof
  | .reserved => match token.text with
    | "void" => some .void
    | "delete" => some .delete
    | "await" => some .await
    | _ => none
  | _ => none

/-- The expression that a reserved word is. -/
def reservedExpression? : String → Option NodeKind
  | "true" => some (.booleanLiteral true)
  | "false" => some (.booleanLiteral false)
  | "null" => some .nullLiteral
  | "super" => some .super
  | _ => none

/-- `++` or `--`. -/
def isUpdateOperator (kind : TokenKind) : Bool :=
  kind == .punct .plusPlus || kind == .punct .minusMinus

/-- An arrow on the line of the token before it. -/
def isArrow (token : Token) : Bool := token.kind == .punct .arrow && !token.afterLineBreak

/-- The state after a parameter list was tried at `s` in vain and left `t`: that of
`s`, with the place remembered. -/
def rememberFailure (s t : ParserState) : ParserState :=
  { t with
    stream := s.stream
    faults := s.faults
    failedArrows := s.position :: t.failedArrows }

variable (g : Grammar)

/-- The parameters of an arrow function, if they begin here and `=>` follows them. -/
def arrowParameters? : Parse (Option (List Node)) := fun s =>
  if s.remembersArrows && s.failedArrows.contains s.position then .ok none s
  else match parameterList g s with
    | .ok params t =>
      if isArrow t.current then .ok (some params) t else .ok none (rememberFailure s t)
    | .error _ t => .ok none (rememberFailure s t)

/-- The arrow and the body of an arrow function. -/
def arrowRest (start : Nat) (params : List Node) (isAsync : Bool) : Parse Node := do
  let _ ← expect .arrow
  let body ← if (← get).atMark .openBrace then allowIn (block g) else g .assignment
  return ⟨⟨start, body.stop⟩, .arrowFunction params body isAsync⟩

/-- An arrow function with a single parameter in no parentheses. -/
def singleParameterArrow (start : Nat) (isAsync : Bool) : Parse Node := do
  let paramStart ← offset
  let name ← bindingName
  let param ← finish paramStart (.parameter name none none false)
  arrowRest g start [param] isAsync

/-- An arrow function or an expression in parentheses. -/
def parenthesizedOrArrow (start : Nat) : Parse Node := do
  match ← arrowParameters? g with
  | some params => arrowRest g start params false
  | none =>
    let _ ← expect .openParen
    let expression ← allowIn (innerSequence g)
    let _ ← expect .closeParen
    finish start (.parenthesized expression)

/-- `function name(params) { body }` after its `async`, if it has one. -/
def functionExpression (start : Nat) (isAsync : Bool) : Parse Node := do
  let _ ← expectKind (.keyword .functionWord)
  let _ ← nextMark .asterisk
  let name ← if (← get).atBindingName then some <$> bindingName else pure none
  return functionNode start (← functionRest g name isAsync)

/-- The parameters of an arrow function after `async`; without them the parse is
back at the `async`. -/
def asyncArrowParameters? : Parse (Option (List Node)) := fun s =>
  match arrowParameters? g s.advance with
  | .ok none t => .ok none { t with stream := s.stream }
  | result => result

/-- What begins with `async`: a function, an arrow function, or that name. -/
def asyncPrimary : Parse Node := do
  let s ← get
  let start := s.offset
  let name := do
    let token ← next
    finish start (.identifier token.text)
  if s.following.afterLineBreak then name
  else if s.following.kind = .keyword .functionWord then
    let _ ← next
    functionExpression g start true
  else if s.following.kind.isBindingName && (s.stream.peekAhead 2).kind == .punct .arrow then
    let _ ← next
    singleParameterArrow g start true
  else if s.following.kind = .punct .openParen then
    match ← asyncArrowParameters? g with
    | some params => arrowRest g start params true
    | none => name
  else name

/-- A name, or an arrow function whose only parameter it is. -/
def namePrimary : Parse Node := do
  let s ← get
  if isArrow s.following then singleParameterArrow g s.offset false
  else
    let token ← next
    finish token.start (.identifier token.text)

/-- Reads a token that is an expression by itself. -/
def leaf (kind : Token → NodeKind) : Parse Node := do
  let token ← next
  finish token.start (kind token)

/-- A name, a literal, or something in brackets. -/
def primary : Parse Node := do
  let s ← get
  match s.kind with
  | .keyword .asyncWord => asyncPrimary g
  | .keyword .thisWord => leaf fun _ => .this
  | .string | .number => leaf literalOfToken
  | .template => leaf fun token => .templateLiteral token.text
  | .reserved => match reservedExpression? s.current.text with
    | some kind => leaf fun _ => kind
    | none => throw s.noExpression
  | .punct .openParen => parenthesizedOrArrow g s.offset
  | .punct .openBracket => arrayLiteral g
  | .punct .openBrace => objectLiteral g
  | .keyword .functionWord => functionExpression g s.offset false
  | .keyword .classWord =>
    let parts ← classParts g false
    finish s.offset (.classExpression parts)
  | .keyword .newWord => g .newExpression
  | kind => if kind.isBindingName then namePrimary g else throw s.noExpression

/-- A node for a member of `object`. -/
def memberNode (start : Nat) (object property : Node) (computed optional : Bool) : Parse Node :=
  finish start (.member object property computed optional)

/-- Member accesses, which the callee of `new` may have. -/
def newCalleeTail (start : Nat) : (rounds : Nat) → Node → Parse Node
  | 0, callee => pure callee
  | rounds + 1, callee => do
    match (← get).kind with
    | .punct .dot =>
      let _ ← next
      let property ← memberName
      newCalleeTail start rounds (← memberNode start callee property false false)
    | .punct .openBracket =>
      let property ← computedKey g
      newCalleeTail start rounds (← memberNode start callee property true false)
    | _ => return callee

/-- `new Callee(arguments)`, with or without arguments, or `new.target`. -/
def newExpression : Parse Node := do
  let start ← offset
  let _ ← expectKind (.keyword .newWord)
  if ← nextMark .dot then
    let name ← anyWord
    finish start (.identifier ("new." ++ name))
  else
    let s ← get
    let callee ← if s.atKeyword .newWord then g .newExpression else primary g
    let callee ← newCalleeTail g s.offset s.rounds callee
    let items ← if (← get).atMark .openParen then arguments g else pure []
    finish start (.new callee items)

/-- Member accesses, calls and tagged templates after an expression. -/
def suffixes (start : Nat) : (rounds : Nat) → Node → Parse Node
  | 0, expression => pure expression
  | rounds + 1, expression => do
    match (← get).kind with
    | .punct .dot =>
      let _ ← next
      let property ← memberName
      suffixes start rounds (← memberNode start expression property false false)
    | .punct .optionalDot =>
      let _ ← next
      match (← get).kind with
      | .punct .openParen =>
        let items ← arguments g
        suffixes start rounds (← finish start (.call expression items true))
      | .punct .openBracket =>
        let property ← computedKey g
        suffixes start rounds (← memberNode start expression property true true)
      | _ =>
        let property ← memberName
        suffixes start rounds (← memberNode start expression property false true)
    | .punct .openBracket =>
      let property ← computedKey g
      suffixes start rounds (← memberNode start expression property true false)
    | .punct .openParen =>
      let items ← arguments g
      suffixes start rounds (← finish start (.call expression items false))
    | .template =>
      let template ← leaf fun token => .templateLiteral token.text
      suffixes start rounds (← finish start (.call expression [template] false))
    | _ => return expression

/-- A primary or `new` expression with what follows it. Nothing follows an arrow
function. -/
def leftHandSide : Parse Node := do
  let s ← get
  let expression ← if s.atKeyword .newWord then newExpression g else primary g
  if expression.isArrowFunction then return expression
  suffixes g s.offset s.rounds expression

/-- An expression that no operator stands before, with the `++` or `--` after it. -/
def postfixExpression (start : Nat) : Parse Node := do
  let expression ← leftHandSide g
  let token := (← get).current
  if isUpdateOperator token.kind && !token.afterLineBreak then
    let _ ← next
    finish start (.update token.kind false expression)
  else return expression

/-- An expression with the unary operators before it. -/
def unary : Parse Node := nested do
  let s ← get
  match unaryOperator? s.current with
  | some operator =>
    let _ ← next
    let argument ← g .unary
    return ⟨⟨s.offset, argument.stop⟩, .unary operator argument⟩
  | none =>
    if isUpdateOperator s.kind then
      let _ ← next
      let argument ← g .unary
      return ⟨⟨s.offset, argument.stop⟩, .update s.kind true argument⟩
    else postfixExpression g s.offset

/-- The least precedence of the operators in the right operand of an operator. -/
def rightPrecedence (operator : TokenKind) (precedence : Nat) : Nat :=
  if operator = .punct .asteriskAsterisk then precedence else precedence + 1

/-- The operators after `left` that bind at least as tightly as `least`, with their
right operands. -/
def binaryTail (start least : Nat) : (rounds : Nat) → Node → Parse Node
  | 0, left => pure left
  | rounds + 1, left => do
    let s ← get
    match binaryPrecedence? s.noIn s.kind with
    | none => return left
    | some precedence =>
      if precedence < least then return left
      else
        let _ ← next
        let right ← g (.binary (rightPrecedence s.kind precedence))
        binaryTail start least rounds ⟨⟨start, right.stop⟩, binaryNode s.kind left right⟩

/-- Operands joined by operators that bind at least as tightly as `least`. -/
def binary (least : Nat) : Parse Node := do
  let s ← get
  binaryTail g s.offset least s.rounds (← unary g)

/-- `test ? consequent : alternate` -/
def conditional : Parse Node := do
  let start ← offset
  let test ← binary g 1
  if !(← nextMark .question) then return test
  let consequent ← allowIn (g .assignment)
  let _ ← expect .colon
  let alternate ← g .assignment
  return ⟨⟨start, alternate.stop⟩, .conditional test consequent alternate⟩

/-- An expression without commas at its top. -/
def assignment : Parse Node := nested do
  let start ← offset
  let target ← conditional g
  let kind := (← get).kind
  if !kind.isAssignment then return target
  let _ ← next
  let value ← g .assignment
  return ⟨⟨start, value.stop⟩, .assignment kind target value⟩

end Typeahead.Grammar
