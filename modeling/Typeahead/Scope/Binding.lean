/-
# Binding

A script is walked in the order of its text. Functions, arrow functions, class
bodies, blocks, loops with a head, the cases of a switch and `catch` clauses open
scopes, which end where the piece of text does. A loop binds its test before its
body.

Key definitions: `Binder.statement`, `Binder.expression`, `Binder.pattern`,
`Node.bind`, `bindText`.
-/
import Typeahead.Scope.Binder
import Typeahead.Grammar.Script

namespace Typeahead

namespace Binder

mutual
/-- Bind a statement. -/
def statement : Node → Binder → Binder
  | ⟨range, kind⟩, b =>
    match kind with
    | .variableDeclaration kind declarations => declarators kind declarations b
    | .functionDeclaration parts =>
      let symbol := parts.name.bind (b.tree.resolve? b.current)
      let bound := function parts range.start symbol false b
      match parts.name with
      | some name => bound.refineResult b.current name b.tree.size parts
      | none => bound
    | .classDeclaration parts =>
      let symbol := b.classSymbol parts (parts.name.getD "")
      classBody parts symbol (b.declare b.current symbol.name .classType symbol.type)
    | .expressionStatement n =>
      let bound := expression n b
      if bound.tracksAssignments then bound.trackAssignment n else bound
    | .return argument => optional argument b
    | .throw argument => expression argument b
    | .block body => (statements body ((b.enter .block range.start).hoist body)).leave range.stop
    | .if test consequent alternate =>
      optionalStatement alternate (statement consequent (expression test b))
    | .while test body => statement body (expression test b)
    | .doWhile body test => statement body (expression test b)
    | .for init test update body =>
      let head := optional update (optional test (loopStart init (b.enter .block range.start)))
      (statement body head).leave range.stop
    | .forInOf left right body isOf =>
      let entered := expression right (b.enter .block range.start)
      let iterated := if isOf then (entered.evaluate right).iterated else .string
      let declared := match left with
        | ⟨_, .variableDeclaration kind declarations⟩ =>
          loopTargets (entered.declarationScope kind) iterated kind declarations entered
        | other => expression other entered
      (statement body declared).leave range.stop
    | .switch discriminant branches =>
      (cases branches ((expression discriminant b).enter .block range.start)).leave range.stop
    | .try block handler finalizer =>
      optionalStatement finalizer (catchClause handler (statement block b))
    | _ => b

/-- Bind statements whose functions are declared. -/
def statements : List Node → Binder → Binder
  | [], b => b
  | n :: rest, b => statements rest (statement n b)

/-- Bind a statement that may be absent. -/
def optionalStatement : Option Node → Binder → Binder
  | none, b => b
  | some n, b => statement n b

/-- Bind the first part of the head of a loop. -/
def loopStart : Option Node → Binder → Binder
  | none, b => b
  | some ⟨_, .variableDeclaration kind declarations⟩, b => declarators kind declarations b
  | some n, b => expression n b

/-- Declare the variables of the head of a loop. -/
def loopTargets (scope : ScopeId) (iterated : Ty) (kind : VariableKind) :
    List Node → Binder → Binder
  | [], b => b
  | ⟨_, .variableDeclarator target _⟩ :: rest, b =>
    loopTargets scope iterated kind rest (pattern scope (some iterated) kind.symbolKind target b)
  | _ :: rest, b => loopTargets scope iterated kind rest b

/-- Bind the cases of a switch. -/
def cases : List Node → Binder → Binder
  | [], b => b
  | ⟨_, .switchCase test consequent⟩ :: rest, b =>
    cases rest (statements consequent ((optional test b).hoist consequent))
  | _ :: rest, b => cases rest b

/-- Bind a `catch` clause, whose parameter is an error. -/
def catchClause : Option Node → Binder → Binder
  | some ⟨range, .catchClause param ⟨_, .block body⟩⟩, b =>
    let entered := b.enter .catch range.start
    let bound := entered.declare entered.current (param.getD "") .parameter (some (.named "Error"))
    (statements body (bound.hoist body)).leave range.stop
  | _, b => b

/-- Bind variables. A variable that holds a class without a name gives it its own. -/
def declarators (kind : VariableKind) : List Node → Binder → Binder
  | [], b => b
  | ⟨_, .variableDeclarator target init⟩ :: rest, b =>
    let scope := b.declarationScope kind
    match target.identifier?, init.bind (·.classExpression?) with
    | some name, some parts =>
      let symbol := b.classSymbol parts (parts.name.getD name)
      let declared := b.declare scope name kind.symbolKind symbol.type
      declarators kind rest (classValue symbol init declared)
    | _, _ =>
      let declared := pattern scope (init.map b.evaluate) kind.symbolKind target b
      declarators kind rest (optional init declared)
  | _ :: rest, b => declarators kind rest b

/-- Bind the class that a variable holds. -/
def classValue (symbol : Symbol) : Option Node → Binder → Binder
  | none, b => b
  | some n, b => parenthesizedClass symbol n b

/-- Bind a class that may stand in parentheses. -/
def parenthesizedClass (symbol : Symbol) : Node → Binder → Binder
  | ⟨_, .parenthesized inner⟩, b => parenthesizedClass symbol inner b
  | ⟨_, .classExpression parts⟩, b => classBody parts symbol b
  | _, b => b

/-- Declare every name of a pattern. The source is the type of the value that is taken
apart, where something is known of it. -/
def pattern (scope : ScopeId) (source : Option Ty) (kind : SymbolKind) : Node → Binder → Binder
  | ⟨_, .identifier name⟩, b => b.declare scope name kind source
  | ⟨_, .objectLiteral items⟩, b => propertyPatterns scope source kind items b
  | ⟨_, .arrayLiteral items⟩, b => elementPatterns scope (source.map (·.iterated)) kind items b
  | ⟨_, .assignment _ target value⟩, b =>
    let bound := expression value b
    let type := (source.getD .unknown).orElse (bound.evaluate value)
    pattern scope (some type) kind target bound
  | _, b => b

/-- Declare the names of the properties of a pattern. -/
def propertyPatterns (scope : ScopeId) (source : Option Ty) (kind : SymbolKind) :
    List Node → Binder → Binder
  | [], b => b
  | ⟨_, .property key value computed _ _⟩ :: rest, b =>
    let type := source.bind fun object => (key.propertyKey? computed).bind (b.memberType? object)
    propertyPatterns scope source kind rest (pattern scope type kind value b)
  | ⟨_, .spread argument⟩ :: rest, b =>
    propertyPatterns scope source kind rest (pattern scope (some .anyObject) kind argument b)
  | _ :: rest, b => propertyPatterns scope source kind rest b

/-- Declare the names of the elements of a pattern. -/
def elementPatterns (scope : ScopeId) (element : Option Ty) (kind : SymbolKind) :
    List Node → Binder → Binder
  | [], b => b
  | ⟨_, .spread argument⟩ :: rest, b =>
    elementPatterns scope element kind rest (pattern scope (element.map .array) kind argument b)
  | n :: rest, b => elementPatterns scope element kind rest (pattern scope element kind n b)

/-- Declare parameters in the current scope, each after its default value is bound. -/
def parameters : List Node → Binder → Binder
  | [], b => b
  | ⟨_, .parameter name target fallback isRest⟩ :: rest, b =>
    let bound := optional fallback b
    let type := if isRest then some (.array .unknown) else fallback.map bound.evaluate
    match target with
    | some target => parameters rest (pattern b.current type .parameter target bound)
    | none => parameters rest (bound.declare b.current name .parameter type)
  | _ :: rest, b => parameters rest b

/-- Bind a function in a scope of its own. -/
def function : FunctionParts Node → (start : Nat) → Option Symbol → (isStatic : Bool) →
    Binder → Binder
  | ⟨_, params, ⟨range, .block body⟩, _⟩, start, symbol, isStatic, b =>
    let bound := parameters params ((b.enter .function start).setFunction symbol isStatic)
    (statements body (bound.hoist body)).leave range.stop
  | ⟨_, params, body, _⟩, start, symbol, isStatic, b =>
    let bound := parameters params ((b.enter .function start).setFunction symbol isStatic)
    (statement body bound).leave body.stop

/-- Bind the body of a class, in a scope that holds its members. -/
def classBody : ClassParts Node → Symbol → Binder → Binder
  | ⟨_, superclass, members, bodyRange⟩, symbol, b =>
    let entered := (optional superclass b).enter .classBody bodyRange.start
    (classElements members ((entered.declareMembers symbol).setClass symbol)).leave bodyRange.stop

/-- Bind the elements of a class. -/
def classElements : List Node → Binder → Binder
  | [], b => b
  | ⟨_, .methodMember key _ isStatic ⟨range, .functionExpression parts⟩⟩ :: rest, b =>
    classElements rest (function parts range.start (some (b.methodSymbol key)) isStatic b)
  | ⟨_, .fieldMember _ value _⟩ :: rest, b => classElements rest (optional value b)
  | _ :: rest, b => classElements rest b

/-- Bind the scopes in an expression. -/
def expression : Node → Binder → Binder
  | ⟨range, kind⟩, b =>
    match kind with
    | .arrowFunction params ⟨_, .block body⟩ _ =>
      let bound := parameters params (b.enter .arrow range.start)
      (statements body (bound.hoist body)).leave range.stop
    | .arrowFunction params body _ =>
      (expression body (parameters params (b.enter .arrow range.start))).leave range.stop
    | .functionExpression parts =>
      match parts.name with
      | some name =>
        let symbol : Symbol := ⟨name, .function, none⟩
        let bound := function parts range.start (some symbol) false b
        { bound with tree := bound.tree.define b.tree.size symbol }
      | none => function parts range.start none false b
    | .classExpression parts => classBody parts (b.classSymbol parts (parts.name.getD "")) b
    | .member object property computed _ =>
      if computed then expression property (expression object b) else expression object b
    | .call callee arguments _ => expressions arguments (expression callee b)
    | .new callee arguments => expressions arguments (expression callee b)
    | .binary _ left right => expression right (expression left b)
    | .logical _ left right => expression right (expression left b)
    | .assignment _ target value => expression value (expression target b)
    | .unary _ argument => expression argument b
    | .update _ _ argument => expression argument b
    | .spread argument => expression argument b
    | .parenthesized inner => expression inner b
    | .conditional test consequent alternate =>
      expression alternate (expression consequent (expression test b))
    | .sequence items => expressions items b
    | .arrayLiteral items => expressions items b
    | .objectLiteral items => properties items b
    | _ => b

/-- Bind the scopes in an expression that may be absent. -/
def optional : Option Node → Binder → Binder
  | none, b => b
  | some n, b => expression n b

/-- Bind the scopes in expressions. -/
def expressions : List Node → Binder → Binder
  | [], b => b
  | n :: rest, b => expressions rest (expression n b)

/-- Bind the scopes in the properties of an object. -/
def properties : List Node → Binder → Binder
  | [], b => b
  | ⟨_, .property key value computed _ _⟩ :: rest, b =>
    let bound := if computed then expression key b else b
    properties rest (expression value bound)
  | n :: rest, b => properties rest (expression n b)
end

end Binder

/-- The scopes of a script. -/
def Node.bind (program : Node) (tracksAssignments : Bool) : ScopeTree :=
  let b := Binder.start tracksAssignments
  match program.kind with
  | .program body => (Binder.statements body (b.hoist body)).tree
  | _ => (Binder.statement program b).tree

/-- How a text is bound: with a parser that recovers from errors or without, and with
the types that assignments tell or without. -/
structure BindOptions where
  recovers : Bool := true
  tracksAssignments : Bool := true
  deriving DecidableEq, Repr, Inhabited

/-- The scopes of a text and the errors in it. -/
structure Bound where
  tree : ScopeTree
  faults : List ParseError

/-- Bind a text. The global scope covers it and one offset more, so that its end lies
inside. A text with an error has only the global scope unless the parser recovers. -/
def bindText (options : BindOptions) (text : List Char) : Bound :=
  let finish (tree : ScopeTree) : ScopeTree :=
    tree.close ScopeTree.root (Text.unitLength text + 1)
  if options.recovers then
    let (program, faults) := parseDocument text
    ⟨finish (program.bind options.tracksAssignments), faults⟩
  else
    match parseProgram text with
    | .ok program => ⟨finish (program.bind options.tracksAssignments), []⟩
    | .error fault => ⟨finish .empty, [fault]⟩

end Typeahead
