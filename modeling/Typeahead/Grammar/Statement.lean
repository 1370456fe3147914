/-
# Statements and declarations

Blocks, declarations, control flow and expression statements. A statement without
a semicolon ends where one is implied.

Key definitions: `variableDeclaration`, `statement`.
-/
import Typeahead.Grammar.Expression

namespace Typeahead.Grammar

open Parse

variable (g : Grammar)

/-- `let` here begins a declaration; elsewhere it is a name. -/
def beginsLet (s : ParserState) : Bool :=
  s.atKeyword .letWord &&
    match s.following.kind with
    | .punct .openBrace | .punct .openBracket => true
    | kind => kind.isBindingName

/-- A token that begins a declaration of variables. -/
def beginsVariables (s : ParserState) : Bool :=
  s.atKeyword .varWord || s.atKeyword .constWord || beginsLet s

/-- The kind of variables that a keyword introduces. -/
def variableKind : TokenKind → VariableKind
  | .keyword .varWord => .varKind
  | .keyword .letWord => .letKind
  | _ => .constKind

/-- An expression as a statement. -/
def expressionStatement : Parse Node := do
  let start ← offset
  let expression ← sequenceOf (assignment g)
  semicolon
  finish start (.expressionStatement expression)

/-- A name or pattern with its value, if it has one. -/
def variableDeclarator : Parse Node := do
  let s ← get
  let target ← match s.kind with
    | .punct .openBrace => objectLiteral g
    | .punct .openBracket => arrayLiteral g
    | _ => do
      let name ← bindingName
      finish s.offset (.identifier name)
  let init ← if ← nextMark .equals then some <$> g .assignment else pure none
  finish s.offset (.variableDeclarator target init)

/-- The variables after the first of a declaration. -/
def moreDeclarators : Parse (List Node) :=
  collectUntil (!·.atMark .comma) do
    let _ ← next
    return some (← variableDeclarator g)

/-- Variables with the keyword that introduces them, without a semicolon. -/
def variableDeclaration : Parse Node := do
  let token ← next
  let first ← variableDeclarator g
  let others ← moreDeclarators g
  finish token.start (.variableDeclaration (variableKind token.kind) (first :: others))

/-- Variables as a statement. -/
def variableStatement : Parse Node := do
  let start ← offset
  let declaration ← variableDeclaration g
  semicolon
  finish start declaration.kind

/-- `async function* name(params) { body }` -/
def functionDeclaration : Parse Node := do
  let start ← offset
  let isAsync ← nextIf (·.atKeyword .asyncWord)
  let _ ← expectKind (.keyword .functionWord)
  let _ ← nextMark .asterisk
  let name ← bindingName
  let parts ← functionRest g (some name) isAsync
  return ⟨⟨start, parts.body.stop⟩, .functionDeclaration parts⟩

/-- A class as a statement. -/
def classDeclaration : Parse Node := do
  let start ← offset
  let parts ← classParts g true
  return ⟨⟨start, parts.bodyRange.stop⟩, .classDeclaration parts⟩

/-- `return` with its value, if it has one on the same line. -/
def returnStatement : Parse Node := do
  let start ← offset
  let _ ← expectKind (.keyword .returnWord)
  let s ← get
  let argument ←
    if s.atMark .semicolon || s.atImpliedSemicolon then pure none
    else some <$> innerSequence g
  semicolon
  finish start (.return argument)

/-- An expression in parentheses. -/
def condition : Parse Node := do
  let _ ← expect .openParen
  let test ← allowIn (innerSequence g)
  let _ ← expect .closeParen
  return test

/-- `if (test) consequent else alternate` -/
def ifStatement : Parse Node := do
  let start ← offset
  let _ ← expectReserved "if"
  let test ← condition g
  let consequent ← g .statement
  let alternate ←
    if ← nextIf (·.atReserved "else") then some <$> g .statement else pure none
  finish start (.if test consequent alternate)

/-- `while (test) body` -/
def whileStatement : Parse Node := do
  let start ← offset
  let _ ← expectReserved "while"
  let test ← condition g
  let body ← g .statement
  finish start (.while test body)

/-- `do body while (test)` -/
def doStatement : Parse Node := do
  let start ← offset
  let _ ← expectReserved "do"
  let body ← g .statement
  let _ ← expectReserved "while"
  let test ← condition g
  let _ ← nextMark .semicolon
  finish start (.doWhile body test)

/-- What a `for` starts with, if anything. -/
def forInit : Parse (Option Node) := do
  let s ← get
  if s.atMark .semicolon then return none
  return some (← withNoIn true <|
    if beginsVariables s then variableDeclaration g else innerSequence g)

/-- The rest of a `for` over keys or elements, after what it assigns to. -/
def forInOfRest (start : Nat) (left : Node) : Parse Node := do
  let isOf := (← next).kind == .keyword .ofWord
  let right ← if isOf then g .assignment else innerSequence g
  let _ ← expect .closeParen
  let body ← g .statement
  finish start (.forInOf left right body isOf)

/-- The rest of a `for` with three parts, after the first. -/
def forRest (start : Nat) (init : Option Node) : Parse Node := do
  let _ ← expect .semicolon
  let test ← if (← get).atMark .semicolon then pure none else some <$> innerSequence g
  let _ ← expect .semicolon
  let update ← if (← get).atMark .closeParen then pure none else some <$> innerSequence g
  let _ ← expect .closeParen
  let body ← g .statement
  finish start (.for init test update body)

/-- `for (init; test; update) body`, `for (left in right) body` or
`for (left of right) body` -/
def forStatement : Parse Node := do
  let start ← offset
  let _ ← expectReserved "for"
  let _ ← nextIf (·.atReserved "await")
  let _ ← expect .openParen
  let init ← forInit g
  let s ← get
  match init with
  | some left =>
    if s.atKeyword .inWord || s.atKeyword .ofWord then forInOfRest g start left
    else forRest g start init
  | none => forRest g start none

/-- `case test:` or `default:` and its statements. -/
def switchCase : Parse Node := do
  let start ← offset
  let test ←
    if ← nextIf (·.atReserved "default") then pure none
    else
      let _ ← expectReserved "case"
      some <$> allowIn (innerSequence g)
  let _ ← expect .colon
  let consequent ← statementList g fun s =>
    s.atMark .closeBrace || s.atReserved "case" || s.atReserved "default"
  finish start (.switchCase test consequent)

/-- `switch (discriminant) { cases }` -/
def switchStatement : Parse Node := do
  let start ← offset
  let _ ← expectReserved "switch"
  let discriminant ← condition g
  let _ ← expect .openBrace
  let cases ← collectUntil (fun s => s.atMark .closeBrace || s.atEnd) (some <$> switchCase g)
  let stop ← closeBrace
  return ⟨⟨start, stop⟩, .switch discriminant cases⟩

/-- What a `catch` binds: a name; a pattern is read and dropped. -/
def catchParam : Parse (Option String) := do
  if !(← nextMark .openParen) then return none
  let param ← match (← get).kind with
    | .punct .openBrace => do
      let _ ← objectLiteral g
      pure none
    | .punct .openBracket => do
      let _ ← arrayLiteral g
      pure none
    | _ => some <$> bindingName
  let _ ← expect .closeParen
  return param

/-- `catch (param) { body }` -/
def catchClause : Parse (Option Node) := do
  let start ← offset
  if !(← nextIf (·.atReserved "catch")) then return none
  let param ← catchParam g
  let body ← block g
  return some ⟨⟨start, body.stop⟩, .catchClause param body⟩

/-- `try { block } catch (param) { handler } finally { finalizer }`; of the last two
one may be missing. -/
def tryStatement : Parse Node := do
  let start ← offset
  let _ ← expectReserved "try"
  let tried ← block g
  let handler ← catchClause g
  let finalizer ← if ← nextIf (·.atReserved "finally") then some <$> block g else pure none
  match finalizer.or handler with
  | none => throw ((← get).unexpected .reserved)
  | some last => return ⟨⟨start, last.stop⟩, .try tried handler finalizer⟩

/-- `throw argument` -/
def throwStatement : Parse Node := do
  let start ← offset
  let _ ← expectReserved "throw"
  let argument ← innerSequence g
  semicolon
  finish start (.throw argument)

/-- `break` or `continue`, with a label if one is on the same line. -/
def jumpStatement (kind : NodeKind) : Parse Node := do
  let start ← offset
  let _ ← next
  let _ ← nextIf fun s => s.atBindingName && !s.current.afterLineBreak
  semicolon
  finish start kind

/-- What begins with a reserved word. -/
def reservedStatement (word : String) : Parse Node :=
  match word with
  | "if" => ifStatement g
  | "while" => whileStatement g
  | "do" => doStatement g
  | "for" => forStatement g
  | "try" => tryStatement g
  | "throw" => throwStatement g
  | "switch" => switchStatement g
  | "break" => jumpStatement .break
  | "continue" => jumpStatement .continue
  | _ => expressionStatement g

/-- A statement or declaration. -/
def statement : Parse Node := nested do
  let s ← get
  match s.kind with
  | .punct .openBrace => block g
  | .punct .semicolon => leaf fun _ => .empty
  | .keyword .functionWord => functionDeclaration g
  | .keyword .classWord => classDeclaration g
  | .keyword .returnWord => returnStatement g
  | .reserved => reservedStatement g s.current.text
  | kind =>
    if beginsVariables s then variableStatement g
    else if kind == .keyword .asyncWord && s.following.kind == .keyword .functionWord &&
        !s.following.afterLineBreak then
      functionDeclaration g
    else expressionStatement g

end Typeahead.Grammar
