/-
# Types of expressions

An expression is evaluated in an environment, one level of the tree at a time: every
step is a function of an evaluator for the level below. At the depth limit
everything is unknown.

A function has the type of the first of its `return` arguments of which something is
known. A class has its methods, accessors and fields, and what its methods assign to
members of `this`; while it is evaluated its methods see the members found so far.

Key definitions: `Evaluator`, `Evaluator.step`, `Node.typeWithin`, `Node.typeIn`,
`Evaluator.classInfo`, `Evaluator.functionType`.
-/
import Typeahead.Tree.Shape
import Typeahead.Types.Environment

namespace Typeahead

/-- A way to evaluate expressions. -/
abbrev Evaluator := TypeEnvironment → Node → Ty

namespace Evaluator

/-- The first of two operands of `||` and `??`, unless it is unknown or has no value. -/
def preferred (left right : Ty) : Ty :=
  if left.isUnknown || left.isPrimitive .null || left.isPrimitive .undefined then right else left

/-- The sum of two values is a string if one of them is and a number if both are. -/
def sum (left right : Ty) : Ty :=
  if left.isPrimitive .string || right.isPrimitive .string then .string
  else if left.isPrimitive .number && right.isPrimitive .number then .number
  else .unknown

/-- The result of a binary operator, its operands being evaluated for `+` only. -/
def binary (eval : Node → Ty) (operator : TokenKind) (left right : Node) : Ty :=
  match operator with
  | .punct mark => match mark with
    | .plus => sum (eval left) (eval right)
    | .minus | .asterisk | .asteriskAsterisk | .slash | .percent | .ampersand | .bar
    | .circumflex | .lessThanLessThan | .greaterThanGreaterThan
    | .greaterThanGreaterThanGreaterThan => .number
    | .equalsEquals | .equalsEqualsEquals | .exclamationEquals | .exclamationEqualsEquals
    | .lessThan | .lessThanEquals | .greaterThan | .greaterThanEquals => .boolean
    | _ => .unknown
  | .keyword .instanceofWord | .keyword .inWord => .boolean
  | _ => .unknown

/-- The result of a unary operator. -/
def unary (eval : Node → Ty) (operator : UnaryOperator) (argument : Node) : Ty :=
  match operator with
  | .typeof => .string
  | .not | .delete => .boolean
  | .void => .undefined
  | .await => eval argument
  | .minus | .bitwiseNot => if (eval argument).isPrimitive .bigint then .primitive .bigint else .number
  | .plus => .number

/-- The value of an assignment. -/
def assigned (eval : Node → Ty) (operator : TokenKind) (target value : Node) : Ty :=
  match operator with
  | .punct mark => match mark with
    | .equals | .barBarAssign | .ampersandAmpersandAssign | .questionQuestionAssign => eval value
    | .plusAssign => binary eval (.punct .plus) target value
    | _ => .number
  | _ => .number

/-- The elements of an array are of the type of the first that is no spread. -/
def array (eval : Node → Ty) (elements : List Node) : Ty :=
  let isSpread (n : Node) : Bool :=
    match n.kind with
    | .spread _ => true
    | _ => false
  match elements.find? (!isSpread ·) with
  | some first => .array (eval first)
  | none => .array .unknown

/-- The keys of an object after one more property, or after those of a spread object. -/
def addProperty (eval : Node → Ty) (entries : Entries Ty) (property : Node) : Entries Ty :=
  match property.kind with
  | .property key value computed _ _ =>
    match key.propertyKey? computed with
    | some name => entries.insert name (eval value)
    | none => entries
  | .spread argument =>
    match (eval argument).shape? with
    | some others => entries.merge others
    | none => entries
  | _ => entries

/-- A member by its name, or the elements by an index that is no string. -/
def member (eval : Node → Ty) (env : TypeEnvironment) (object property : Node) (computed : Bool) :
    Ty :=
  let type := eval object
  let named (name : String) : Ty := (env.memberType? type name).getD .unknown
  if type.isUnknown then .unknown
  else if computed then
    match property.unparenthesized.kind with
    | .stringLiteral name => named name
    | _ => type.element?.getD .unknown
  else
    match property.identifier? with
    | some name => named name
    | none => .unknown

/-- The result of a call. A member that is a method already has the type of its
result. -/
def call (eval : Node → Ty) (callee : Node) : Ty :=
  let callee := callee.unparenthesized
  match callee.kind with
  | .member .. => eval callee
  | .super => .undefined
  | _ => (eval callee).callResult

/-- The types of parameters: that of the default value, and an array for a rest
parameter. -/
def parameterTypes (eval : Node → Ty) (params : List Node) : Entries Ty :=
  params.foldl
    (fun bound p =>
      match p.kind with
      | .parameter "" _ _ _ => bound
      | .parameter name _ _ true => bound.insert name (.array .unknown)
      | .parameter name _ (some value) false => bound.insert name (eval value)
      | .parameter name _ none false => bound.insert name .unknown
      | _ => bound)
    []

/-- What is known in the body of a function. -/
def inBody (eval : Evaluator) (env : TypeEnvironment) (params : List Node) (ownThis : Option Ty) :
    TypeEnvironment :=
  env.withParameters (parameterTypes (eval env) params) ownThis

/-- The first type of which something is known. -/
def firstKnown (eval : Node → Ty) : List Node → Ty
  | [] => .unknown
  | n :: rest => (eval n).orElse (firstKnown eval rest)

/-- The type of what a body in braces returns: `undefined` if it returns nothing. -/
def bodyResult (eval : Evaluator) (env : TypeEnvironment) (params : List Node) (body : Node)
    (ownThis : Option Ty) : Ty :=
  match body.returned with
  | [] => .undefined
  | arguments => firstKnown (eval (inBody eval env params ownThis)) arguments

/-- The type of a function. An `async` function returns a promise. -/
def functionType (eval : Evaluator) (env : TypeEnvironment) (parts : FunctionParts Node)
    (ownThis : Option Ty) : Ty :=
  let result := if parts.isAsync then .named "Promise"
    else bodyResult eval env parts.params parts.body ownThis
  .function parts.name (Node.parameterNames parts.params) result

/-- The type of an arrow function, which returns its body if that is an expression. -/
def arrowType (eval : Evaluator) (env : TypeEnvironment) (params : List Node) (body : Node) : Ty :=
  let result := if body.isBlock then bodyResult eval env params body none
    else eval (inBody eval env params none) body
  .function none (Node.parameterNames params) result

/-- `this` in a method: an instance, or the class itself if the method is static. -/
def selfType (info : ClassInfo Ty) (isStatic : Bool) : Ty :=
  .class (info.onSide (if isStatic then .constructorSide else .instanceSide))

/-- A class after one more method: the method itself unless it is the constructor,
and what its body assigns to members of `this`. -/
def addMethod (eval : Evaluator) (env : TypeEnvironment) (info : ClassInfo Ty) (key : String)
    (kind : MethodKind) (isStatic : Bool) (parts : FunctionParts Node) : ClassInfo Ty :=
  let self := selfType info isStatic
  let withMethod := match kind with
    | .constructor => info
    | .getter | .setter =>
      info.addMember
        ⟨key, .property, isStatic, bodyResult eval env parts.params parts.body (some self)⟩
    | .method =>
      info.addMember ⟨key, .method, isStatic, (functionType eval env parts (some self)).callResult⟩
  let inside := inBody eval env parts.params (some self)
  parts.body.selfMembers.foldl
    (fun found entry => found.addMember ⟨entry.1, .property, isStatic, eval inside entry.2⟩)
    withMethod

/-- A class after one more field, which replaces a member of its name. A field that
holds a function is a method. -/
def addField (eval : Node → Ty) (info : ClassInfo Ty) (key : String) (value : Option Node)
    (isStatic : Bool) : ClassInfo Ty :=
  let type := (value.map eval).getD .unknown
  if type.isFunction then info.replaceMember ⟨key, .method, isStatic, type.callResult⟩
  else info.replaceMember ⟨key, .property, isStatic, type⟩

/-- A class after one more of its elements. -/
def addElement (eval : Evaluator) (env : TypeEnvironment) (info : ClassInfo Ty) (element : Node) :
    ClassInfo Ty :=
  match element.kind with
  | .methodMember key kind isStatic ⟨_, .functionExpression parts⟩ =>
    addMethod eval env info key kind isStatic parts
  | .fieldMember key value isStatic => addField (eval env) info key value isStatic
  | _ => info

/-- A class of the given name, seen from its constructor. -/
def classInfo (eval : Evaluator) (env : TypeEnvironment) (parts : ClassParts Node) (name : String) :
    ClassInfo Ty :=
  let parent := parts.superclass.bind fun s => s.unparenthesized.identifier?
  parts.members.foldl (addElement eval env) ⟨name, [], parent, .constructorSide⟩

/-- The type of an expression, given an evaluator for the expressions in it. -/
def step (eval : Evaluator) (env : TypeEnvironment) (node : Node) : Ty :=
  match node.kind with
  | .stringLiteral _ | .templateLiteral _ => .string
  | .numericLiteral .. | .update .. => .number
  | .bigIntLiteral _ => .primitive .bigint
  | .booleanLiteral _ => .boolean
  | .nullLiteral => .primitive .null
  | .identifier name => (env.typeOf? name).getD .unknown
  | .this => env.thisType
  | .arrayLiteral elements => array (eval env) elements
  | .objectLiteral properties => .shaped (properties.foldl (addProperty (eval env)) [])
  | .member object property computed _ => member (eval env) env object property computed
  | .call callee _ _ => call (eval env) callee
  | .new callee _ =>
    match callee.unparenthesized.identifier? with
    | some name => env.construct name
    | none => .unknown
  | .binary operator left right => binary (eval env) operator left right
  | .logical operator left right =>
    if operator = .punct .ampersandAmpersand then eval env right
    else preferred (eval env left) (eval env right)
  | .unary operator argument => unary (eval env) operator argument
  | .conditional _ consequent alternate => (eval env consequent).orElse (eval env alternate)
  | .assignment operator target value => assigned (eval env) operator target value
  | .sequence expressions => (expressions.getLast?.map (eval env)).getD .unknown
  | .parenthesized expression => eval env expression
  | .arrowFunction params body _ => arrowType eval env params body
  | .functionExpression parts => functionType eval env parts none
  | .classExpression parts => .class (classInfo eval env parts (parts.name.getD ""))
  | _ => .unknown

/-- How deep expressions are evaluated. -/
def depthLimit : Nat := 32

end Evaluator

namespace Node

/-- The type of an expression, looking at most `depth` levels into it. -/
def typeWithin : (depth : Nat) → Evaluator
  | 0, _, _ => .unknown
  | depth + 1, env, node => Evaluator.step (typeWithin depth) env node

/-- The type of an expression in an environment. -/
def typeIn : Evaluator := typeWithin Evaluator.depthLimit

end Node
end Typeahead
