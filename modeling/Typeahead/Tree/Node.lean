/-
# Syntax trees

A node of the tree of a script: the range it covers and what it is. Children are
held by value and in source order; nothing points back up the tree.

Key definitions: `Node`, `NodeKind`, `Node.identifier?`, `Node.unparenthesized`,
`NodeKind.name`.
-/
import Typeahead.Token.Kind
import Typeahead.Text.Range
import Typeahead.Number.Binary64

namespace Typeahead

/-- The keyword that introduces variables. -/
inductive VariableKind where
  | varKind | letKind | constKind
  deriving DecidableEq, Repr, Inhabited

/-- The name under which a variable keyword is reported. -/
def VariableKind.name : VariableKind → String
  | .varKind => "Var"
  | .letKind => "Let"
  | .constKind => "Const"

/-- What a class element with a body is. -/
inductive MethodKind where
  | method | getter | setter | constructor
  deriving DecidableEq, Repr, Inhabited

/-- The name under which a kind of method is reported. -/
def MethodKind.name : MethodKind → String
  | .method => "Method"
  | .getter => "Getter"
  | .setter => "Setter"
  | .constructor => "Constructor"

/-- An operator before its operand, `++` and `--` apart. -/
inductive UnaryOperator where
  | plus | minus | not | bitwiseNot | typeof | void | delete | await
  deriving DecidableEq, Repr, Inhabited

/-- The name under which a unary operator is reported. -/
def UnaryOperator.name : UnaryOperator → String
  | .plus => "Plus"
  | .minus => "Minus"
  | .not => "Not"
  | .bitwiseNot => "BitwiseNot"
  | .typeof => "Typeof"
  | .void => "Void"
  | .delete => "Delete"
  | .await => "Await"

/-- What function declarations and expressions share. The parameters are
`parameter` nodes and the body is a `block`. -/
structure FunctionParts (ν : Type) where
  name : Option String
  params : List ν
  body : ν
  isAsync : Bool

/-- What class declarations and expressions share. The members are `methodMember`
and `fieldMember` nodes; `bodyRange` is the range of the braces. -/
structure ClassParts (ν : Type) where
  name : Option String
  superclass : Option ν
  members : List ν
  bodyRange : TextRange

mutual
/-- A piece of the tree and the range it covers. -/
inductive Node where
  | mk (range : TextRange) (kind : NodeKind)

/-- What a node is. -/
inductive NodeKind where
  | program (body : List Node)
  | identifier (name : String)
  /-- A string, by its value without quotes. -/
  | stringLiteral (value : String)
  | numericLiteral (value : Binary64) (raw : String)
  | bigIntLiteral (raw : String)
  | booleanLiteral (value : Bool)
  | nullLiteral
  | templateLiteral (raw : String)
  | arrayLiteral (elements : List Node)
  /-- An object, by its `property` and `spread` nodes. -/
  | objectLiteral (properties : List Node)
  /-- A property. A key that is not computed is an identifier, string or number. -/
  | property (key value : Node) (computed shorthand method : Bool)
  | spread (argument : Node)
  | this
  | super
  /-- A member. A property that is not computed is an identifier. -/
  | member (object property : Node) (computed optional : Bool)
  | call (callee : Node) (arguments : List Node) (optional : Bool)
  | new (callee : Node) (arguments : List Node)
  | binary (operator : TokenKind) (left right : Node)
  /-- One of `&&`, `||` and `??`. -/
  | logical (operator : TokenKind) (left right : Node)
  | unary (operator : UnaryOperator) (argument : Node)
  | update (operator : TokenKind) (beforeOperand : Bool) (argument : Node)
  | conditional (test consequent alternate : Node)
  | assignment (operator : TokenKind) (target value : Node)
  | sequence (expressions : List Node)
  | parenthesized (expression : Node)
  /-- An arrow function. The body is a block or the expression it returns. -/
  | arrowFunction (params : List Node) (body : Node) (isAsync : Bool)
  /-- A parameter. Its name is empty where it is a pattern. -/
  | parameter (name : String) (pattern fallback : Option Node) (isRest : Bool)
  | functionExpression (parts : FunctionParts Node)
  | classExpression (parts : ClassParts Node)
  /-- A class element with a body, which is a `functionExpression`. -/
  | methodMember (key : String) (kind : MethodKind) (isStatic : Bool) (value : Node)
  | fieldMember (key : String) (value : Option Node) (isStatic : Bool)
  | functionDeclaration (parts : FunctionParts Node)
  | classDeclaration (parts : ClassParts Node)
  | variableDeclaration (kind : VariableKind) (declarations : List Node)
  /-- A variable. The target is an identifier, or an object or array that serves as
  a pattern. -/
  | variableDeclarator (target : Node) (init : Option Node)
  | expressionStatement (expression : Node)
  | return (argument : Option Node)
  | block (body : List Node)
  | if (test consequent : Node) (alternate : Option Node)
  | while (test body : Node)
  | doWhile (body test : Node)
  | for (init test update : Option Node) (body : Node)
  /-- A loop over keys, or over elements if `isOf`. -/
  | forInOf (left right body : Node) (isOf : Bool)
  | switch (discriminant : Node) (cases : List Node)
  /-- A case of a switch, without a test where it is the default. -/
  | switchCase (test : Option Node) (consequent : List Node)
  | try (block : Node) (handler finalizer : Option Node)
  | catchClause (param : Option String) (body : Node)
  | throw (argument : Node)
  | break
  | continue
  | empty
end

/-- The name under which a kind of node is reported. -/
def NodeKind.name : NodeKind → String
  | .program .. => "Program"
  | .identifier .. => "Identifier"
  | .stringLiteral .. => "StringLiteral"
  | .numericLiteral .. => "NumericLiteral"
  | .bigIntLiteral .. => "BigIntLiteral"
  | .booleanLiteral .. => "BooleanLiteral"
  | .nullLiteral => "NullLiteral"
  | .templateLiteral .. => "TemplateLiteral"
  | .arrayLiteral .. => "ArrayLiteral"
  | .objectLiteral .. => "ObjectLiteral"
  | .property .. => "Property"
  | .spread .. => "SpreadElement"
  | .this => "This"
  | .super => "Super"
  | .member .. => "Member"
  | .call .. => "Call"
  | .new .. => "New"
  | .binary .. => "Binary"
  | .logical .. => "Logical"
  | .unary .. => "Unary"
  | .update .. => "Update"
  | .conditional .. => "Conditional"
  | .assignment .. => "Assignment"
  | .sequence .. => "Sequence"
  | .parenthesized .. => "Parenthesized"
  | .arrowFunction .. => "ArrowFunction"
  | .parameter .. => "Parameter"
  | .functionExpression .. => "FunctionExpression"
  | .classExpression .. => "ClassExpression"
  | .methodMember .. => "MethodDefinition"
  | .fieldMember .. => "PropertyDefinition"
  | .functionDeclaration .. => "FunctionDeclaration"
  | .classDeclaration .. => "ClassDeclaration"
  | .variableDeclaration .. => "VariableDeclaration"
  | .variableDeclarator .. => "VariableDeclarator"
  | .expressionStatement .. => "ExpressionStatement"
  | .return .. => "Return"
  | .block .. => "Block"
  | .if .. => "If"
  | .while .. => "While"
  | .doWhile .. => "DoWhile"
  | .for .. => "For"
  | .forInOf .. => "ForInOf"
  | .switch .. => "Switch"
  | .switchCase .. => "SwitchCase"
  | .try .. => "Try"
  | .catchClause .. => "CatchClause"
  | .throw .. => "Throw"
  | .break => "Break"
  | .continue => "Continue"
  | .empty => "Empty"

namespace Node

instance : Inhabited Node := ⟨⟨default, .empty⟩⟩

/-- The range a node covers. -/
def range : Node → TextRange
  | ⟨range, _⟩ => range

/-- What a node is. -/
def kind : Node → NodeKind
  | ⟨_, kind⟩ => kind

/-- The offset a node starts at. -/
def start (n : Node) : Nat := n.range.start

/-- The offset a node stops at. -/
def stop (n : Node) : Nat := n.range.stop

/-- The name of an identifier. -/
def identifier? : Node → Option String
  | ⟨_, .identifier name⟩ => some name
  | _ => none

/-- A node without the parentheses around it. -/
def unparenthesized : Node → Node
  | ⟨_, .parenthesized inner⟩ => inner.unparenthesized
  | n => n

/-- The node is a block. -/
def isBlock : Node → Bool
  | ⟨_, .block _⟩ => true
  | _ => false

/-- The node is an arrow function. -/
def isArrowFunction : Node → Bool
  | ⟨_, .arrowFunction ..⟩ => true
  | _ => false

end Node
end Typeahead
