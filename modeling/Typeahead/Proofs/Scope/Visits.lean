/-
# The order in which a script is bound

To bind a part of a script is to bind smaller parts of it, one after another, with single changes before,
between and after them. So a run of the binder visits every part that it binds in some state. A property
that every step keeps is kept by every piece of the run.

Key definitions: `Binder.Piece`, `Binder.Piece.run`, `Binder.Piece.pieces`, `Binder.Visits`, `Node.Visits`.
Key theorems: `Binder.Piece.run_eq`, `Binder.Piece.keeps`.
-/
import Mathlib.Logic.Relation
import Typeahead.Proofs.Hoisting.Stable

namespace Typeahead

namespace Binder

/-- A piece of what the binder does: a part of a script that it binds, or a single change. -/
inductive Piece where
  | statement (n : Node)
  | statements (l : List Node)
  | optionalStatement (o : Option Node)
  | loopStart (o : Option Node)
  | loopTargets (scope : ScopeId) (iterated : Ty) (kind : VariableKind) (l : List Node)
  | cases (l : List Node)
  | catchClause (o : Option Node)
  | declarators (kind : VariableKind) (l : List Node)
  | classValue (symbol : Symbol) (o : Option Node)
  | parenthesizedClass (symbol : Symbol) (n : Node)
  | pattern (scope : ScopeId) (source : Option Ty) (kind : SymbolKind) (n : Node)
  | propertyPatterns (scope : ScopeId) (source : Option Ty) (kind : SymbolKind) (l : List Node)
  | elementPatterns (scope : ScopeId) (element : Option Ty) (kind : SymbolKind) (l : List Node)
  | parameters (l : List Node)
  | function (parts : FunctionParts Node) (start : Nat) (symbol : Option Symbol) (isStatic : Bool)
  | classBody (parts : ClassParts Node) (symbol : Symbol)
  | classElements (l : List Node)
  | expression (n : Node)
  | optional (o : Option Node)
  | expressions (l : List Node)
  | properties (l : List Node)
  | openBlock (start : Nat)
  | openClass (start : Nat) (symbol : Symbol)
  | hoist (l : List Node)
  | declare (scope : ScopeId) (name : String) (kind : SymbolKind) (type : Option Ty)
  | refineResult (scope : ScopeId) (name : String) (own : ScopeId) (parts : FunctionParts Node)
  | trackAssignments (n : Node)
  | define (scope : ScopeId) (symbol : Symbol)
  | leave (stop : Nat)

namespace Piece

/-- The state after a piece. -/
def run : Piece → Binder → Binder
  | .statement n, b => Binder.statement n b
  | .statements l, b => Binder.statements l b
  | .optionalStatement o, b => Binder.optionalStatement o b
  | .loopStart o, b => Binder.loopStart o b
  | .loopTargets scope iterated kind l, b => Binder.loopTargets scope iterated kind l b
  | .cases l, b => Binder.cases l b
  | .catchClause o, b => Binder.catchClause o b
  | .declarators kind l, b => Binder.declarators kind l b
  | .classValue symbol o, b => Binder.classValue symbol o b
  | .parenthesizedClass symbol n, b => Binder.parenthesizedClass symbol n b
  | .pattern scope source kind n, b => Binder.pattern scope source kind n b
  | .propertyPatterns scope source kind l, b => Binder.propertyPatterns scope source kind l b
  | .elementPatterns scope element kind l, b => Binder.elementPatterns scope element kind l b
  | .parameters l, b => Binder.parameters l b
  | .function parts start symbol isStatic, b => Binder.function parts start symbol isStatic b
  | .classBody parts symbol, b => Binder.classBody parts symbol b
  | .classElements l, b => Binder.classElements l b
  | .expression n, b => Binder.expression n b
  | .optional o, b => Binder.optional o b
  | .expressions l, b => Binder.expressions l b
  | .properties l, b => Binder.properties l b
  | .openBlock start, b => b.enter .block start
  | .openClass start symbol, b => ((b.enter .classBody start).declareMembers symbol).setClass symbol
  | .hoist l, b => b.hoist l
  | .declare scope name kind type, b => b.declare scope name kind type
  | .refineResult scope name own parts, b => b.refineResult scope name own parts
  | .trackAssignments n, b => if b.tracksAssignments then b.trackAssignment n else b
  | .define scope symbol, b => { b with tree := b.tree.define scope symbol }
  | .leave stop, b => b.leave stop

/-- The scope that a piece names. -/
def scope? : Piece → Option ScopeId
  | .loopTargets scope _ _ _ | .pattern scope _ _ _ | .propertyPatterns scope _ _ _ | .elementPatterns scope _ _ _
  | .declare scope _ _ _ | .refineResult scope _ _ _ | .define scope _ => some scope
  | _ => none

/-- The symbol of a function expression for its own name. -/
def ownSymbol? (parts : FunctionParts Node) : Option Symbol := parts.name.map fun name => ⟨name, .function, none⟩

/-- The body of a function, up to where its scope is left. -/
def functionBody : Node → List Piece
  | ⟨range, .block body⟩ => [.hoist body, .statements body, .leave range.stop]
  | body => [.statement body, .leave body.stop]

/-- The declaration of a variable, and what it holds. -/
def declarator (kind : VariableKind) (target : Node) (init : Option Node) (b : Binder) : List Piece :=
  match target.identifier?, init.bind (·.classExpression?) with
  | some name, some parts =>
    let symbol := b.classSymbol parts (parts.name.getD name)
    [.declare (b.declarationScope kind) name kind.symbolKind symbol.type, .classValue symbol init]
  | _, _ => [.pattern (b.declarationScope kind) (init.map b.evaluate) kind.symbolKind target, .optional init]

/-- The state in which the first of the smaller pieces begins, in a scope of its own if it opens one. -/
def opened : Piece → Binder → Binder
  | .statement ⟨range, kind⟩, b =>
    match kind with
    | .block _ | .for _ _ _ _ | .forInOf _ _ _ _ => b.enter .block range.start
    | _ => b
  | .catchClause (some ⟨range, .catchClause _ ⟨_, .block _⟩⟩), b => b.enter .catch range.start
  | .function _ start symbol isStatic, b => (b.enter .function start).setFunction symbol isStatic
  | .expression ⟨range, kind⟩, b =>
    match kind with
    | .arrowFunction _ _ _ => b.enter .arrow range.start
    | .functionExpression parts => (b.enter .function range.start).setFunction (ownSymbol? parts) false
    | _ => b
  | _, b => b

/-- The smaller pieces of a piece, in order. -/
def pieces : Piece → Binder → List Piece
  | .statement ⟨range, kind⟩, b =>
    match kind with
    | .variableDeclaration kind declarations => [.declarators kind declarations]
    | .functionDeclaration parts =>
      .function parts range.start (parts.name.bind (b.tree.resolve? b.current)) false ::
        (parts.name.map fun name => .refineResult b.current name b.tree.size parts).toList
    | .classDeclaration parts =>
      let symbol := b.classSymbol parts (parts.name.getD "")
      [.declare b.current symbol.name .classType symbol.type, .classBody parts symbol]
    | .expressionStatement n => [.expression n, .trackAssignments n]
    | .return argument => [.optional argument]
    | .throw argument => [.expression argument]
    | .block body => [.hoist body, .statements body, .leave range.stop]
    | .if test consequent alternate => [.expression test, .statement consequent, .optionalStatement alternate]
    | .while test body => [.expression test, .statement body]
    | .doWhile body test => [.expression test, .statement body]
    | .for init test update body =>
      [.loopStart init, .optional test, .optional update, .statement body, .leave range.stop]
    | .forInOf left right body isOf =>
      let entered := Binder.expression right (b.enter .block range.start)
      let iterated := if isOf then (entered.evaluate right).iterated else .string
      let declared := match left with
        | ⟨_, .variableDeclaration kind declarations⟩ =>
          .loopTargets (entered.declarationScope kind) iterated kind declarations
        | other => .expression other
      [.expression right, declared, .statement body, .leave range.stop]
    | .switch discriminant branches =>
      [.expression discriminant, .openBlock range.start, .cases branches, .leave range.stop]
    | .try block handler finalizer => [.statement block, .catchClause handler, .optionalStatement finalizer]
    | _ => []
  | .statements (n :: rest), _ => [.statement n, .statements rest]
  | .optionalStatement (some n), _ => [.statement n]
  | .loopStart (some ⟨_, .variableDeclaration kind declarations⟩), _ => [.declarators kind declarations]
  | .loopStart (some n), _ => [.expression n]
  | .loopTargets scope iterated kind (⟨_, .variableDeclarator target _⟩ :: rest), _ =>
    [.pattern scope (some iterated) kind.symbolKind target, .loopTargets scope iterated kind rest]
  | .loopTargets scope iterated kind (_ :: rest), _ => [.loopTargets scope iterated kind rest]
  | .cases (⟨_, .switchCase test consequent⟩ :: rest), _ =>
    [.optional test, .hoist consequent, .statements consequent, .cases rest]
  | .cases (_ :: rest), _ => [.cases rest]
  | .catchClause (some ⟨range, .catchClause param ⟨_, .block body⟩⟩), b =>
    [.declare (b.enter .catch range.start).current (param.getD "") .parameter (some (.named "Error")), .hoist body,
      .statements body, .leave range.stop]
  | .declarators kind (⟨_, .variableDeclarator target init⟩ :: rest), b =>
    declarator kind target init b ++ [.declarators kind rest]
  | .declarators kind (_ :: rest), _ => [.declarators kind rest]
  | .classValue symbol (some n), _ => [.parenthesizedClass symbol n]
  | .parenthesizedClass symbol ⟨_, .parenthesized inner⟩, _ => [.parenthesizedClass symbol inner]
  | .parenthesizedClass symbol ⟨_, .classExpression parts⟩, _ => [.classBody parts symbol]
  | .pattern scope source kind ⟨_, .identifier name⟩, _ => [.declare scope name kind source]
  | .pattern scope source kind ⟨_, .objectLiteral items⟩, _ => [.propertyPatterns scope source kind items]
  | .pattern scope source kind ⟨_, .arrayLiteral items⟩, _ =>
    [.elementPatterns scope (source.map (·.iterated)) kind items]
  | .pattern scope source kind ⟨_, .assignment _ target value⟩, b =>
    let type := (source.getD .unknown).orElse ((Binder.expression value b).evaluate value)
    [.expression value, .pattern scope (some type) kind target]
  | .propertyPatterns scope source kind (⟨_, .property key value computed _ _⟩ :: rest), b =>
    let type := source.bind fun object => (key.propertyKey? computed).bind (b.memberType? object)
    [.pattern scope type kind value, .propertyPatterns scope source kind rest]
  | .propertyPatterns scope source kind (⟨_, .spread argument⟩ :: rest), _ =>
    [.pattern scope (some .anyObject) kind argument, .propertyPatterns scope source kind rest]
  | .propertyPatterns scope source kind (_ :: rest), _ => [.propertyPatterns scope source kind rest]
  | .elementPatterns scope element kind (⟨_, .spread argument⟩ :: rest), _ =>
    [.pattern scope (element.map .array) kind argument, .elementPatterns scope element kind rest]
  | .elementPatterns scope element kind (n :: rest), _ =>
    [.pattern scope element kind n, .elementPatterns scope element kind rest]
  | .parameters (⟨_, .parameter name target fallback isRest⟩ :: rest), b =>
    let type := if isRest then some (.array .unknown) else fallback.map (Binder.optional fallback b).evaluate
    let declared := match target with
      | some target => .pattern b.current type .parameter target
      | none => .declare b.current name .parameter type
    [.optional fallback, declared, .parameters rest]
  | .parameters (_ :: rest), _ => [.parameters rest]
  | .function parts _ _ _, _ => .parameters parts.params :: functionBody parts.body
  | .classBody parts symbol, _ =>
    [.optional parts.superclass, .openClass parts.bodyRange.start symbol, .classElements parts.members,
      .leave parts.bodyRange.stop]
  | .classElements (⟨_, .methodMember key _ isStatic ⟨range, .functionExpression parts⟩⟩ :: rest), b =>
    [.function parts range.start (some (b.methodSymbol key)) isStatic, .classElements rest]
  | .classElements (⟨_, .fieldMember _ value _⟩ :: rest), _ => [.optional value, .classElements rest]
  | .classElements (_ :: rest), _ => [.classElements rest]
  | .expression ⟨range, kind⟩, b =>
    match kind with
    | .arrowFunction params ⟨_, .block body⟩ _ =>
      [.parameters params, .hoist body, .statements body, .leave range.stop]
    | .arrowFunction params body _ => [.parameters params, .expression body, .leave range.stop]
    | .functionExpression parts =>
      .parameters parts.params :: (functionBody parts.body ++ ((ownSymbol? parts).map (.define b.tree.size)).toList)
    | .classExpression parts => [.classBody parts (b.classSymbol parts (parts.name.getD ""))]
    | .member object property computed _ =>
      .expression object :: if computed then [.expression property] else []
    | .call callee arguments _ => [.expression callee, .expressions arguments]
    | .new callee arguments => [.expression callee, .expressions arguments]
    | .binary _ left right => [.expression left, .expression right]
    | .logical _ left right => [.expression left, .expression right]
    | .assignment _ target value => [.expression target, .expression value]
    | .unary _ argument => [.expression argument]
    | .update _ _ argument => [.expression argument]
    | .spread argument => [.expression argument]
    | .parenthesized inner => [.expression inner]
    | .conditional test consequent alternate =>
      [.expression test, .expression consequent, .expression alternate]
    | .sequence items => [.expressions items]
    | .arrayLiteral items => [.expressions items]
    | .objectLiteral items => [.properties items]
    | _ => []
  | .optional (some n), _ => [.expression n]
  | .expressions (n :: rest), _ => [.expression n, .expressions rest]
  | .properties (⟨_, .property key value computed _ _⟩ :: rest), _ =>
    (if computed then [.expression key] else []) ++ [.expression value, .properties rest]
  | .properties (n :: rest), _ => [.expression n, .properties rest]
  | _, _ => []

end Piece

/-- The state after some pieces. -/
def runAll (pieces : List Piece) (b : Binder) : Binder := pieces.foldl (fun b p => p.run b) b

/-- Some pieces, each with the state that it begins in. -/
def inOrder : List Piece → Binder → List (Piece × Binder)
  | [], _ => []
  | p :: rest, b => (p, b) :: inOrder rest (p.run b)

/-- The smaller pieces of a piece, each with the state that it begins in. -/
def Piece.visits (p : Piece) (b : Binder) : List (Piece × Binder) := inOrder (p.pieces b) (p.opened b)

/-- A piece that begins in some state visits another one, in a state that the binder has then reached. -/
def Visits : Piece × Binder → Piece × Binder → Prop :=
  Relation.ReflTransGen fun outer inner => inner ∈ outer.1.visits outer.2

namespace Piece

/-- **A piece that consists of smaller ones is these in order.** -/
theorem run_eq (p : Piece) (b : Binder) (h : p.pieces b ≠ []) : p.run b = runAll (p.pieces b) (p.opened b) := by
  cases p with
  | statement n =>
    obtain ⟨range, kind⟩ := n
    cases kind with
    | functionDeclaration parts =>
      obtain ⟨name, params, body, isAsync⟩ := parts
      cases name <;> rfl
    | forInOf left right body isOf =>
      obtain ⟨leftRange, leftKind⟩ := left
      cases leftKind <;> rfl
    | _ => rfl
  | statements l | expressions l => cases l <;> rfl
  | loopTargets scope iterated kind l | cases l | propertyPatterns scope source kind l
  | elementPatterns scope element kind l =>
    cases l with
    | nil => rfl
    | cons n rest =>
      obtain ⟨range, kind⟩ := n
      cases kind <;> rfl
  | optionalStatement o | classValue symbol o | optional o => cases o <;> rfl
  | loopStart o =>
    cases o with
    | none => rfl
    | some n =>
      obtain ⟨range, kind⟩ := n
      cases kind <;> rfl
  | catchClause o =>
    cases o with
    | none => rfl
    | some n =>
      obtain ⟨range, kind⟩ := n
      cases kind with
      | catchClause param body =>
        obtain ⟨bodyRange, bodyKind⟩ := body
        cases bodyKind <;> rfl
      | _ => rfl
  | declarators kind l =>
    cases l with
    | nil => rfl
    | cons n rest =>
      obtain ⟨range, declaration⟩ := n
      cases declaration with
      | variableDeclarator target init =>
        change Binder.declarators kind _ b = runAll (declarator kind target init b ++ [.declarators kind rest]) b
        rw [Binder.declarators, declarator]
        cases target.identifier? <;> cases init.bind (·.classExpression?) <;> rfl
      | _ => rfl
  | parenthesizedClass symbol n | pattern scope source kind n =>
    obtain ⟨range, kind⟩ := n
    cases kind <;> rfl
  | parameters l =>
    cases l with
    | nil => rfl
    | cons n rest =>
      obtain ⟨range, parameter⟩ := n
      cases parameter with
      | parameter name target fallback isRest => cases target <;> rfl
      | _ => rfl
  | function parts start symbol isStatic =>
    obtain ⟨name, params, body, isAsync⟩ := parts
    obtain ⟨range, kind⟩ := body
    cases kind <;> rfl
  | classElements l =>
    cases l with
    | nil => rfl
    | cons n rest =>
      obtain ⟨range, element⟩ := n
      cases element with
      | methodMember key kind isStatic value =>
        obtain ⟨valueRange, valueKind⟩ := value
        cases valueKind <;> rfl
      | _ => rfl
  | expression n =>
    obtain ⟨range, kind⟩ := n
    cases kind with
    | arrowFunction params body isAsync =>
      obtain ⟨bodyRange, bodyKind⟩ := body
      cases bodyKind <;> rfl
    | functionExpression parts =>
      obtain ⟨name, params, body, isAsync⟩ := parts
      obtain ⟨bodyRange, bodyKind⟩ := body
      cases name <;> cases bodyKind <;> rfl
    | member object property computed chained => cases computed <;> rfl
    | _ => rfl
  | properties l =>
    cases l with
    | nil => rfl
    | cons n rest =>
      obtain ⟨range, item⟩ := n
      cases item with
      | property key value computed shorthand method => cases computed <;> rfl
      | _ => rfl
  | classBody parts symbol =>
    obtain ⟨name, superclass, members, bodyRange⟩ := parts
    rfl
  | _ => exact absurd rfl h

/-! ### What every piece keeps -/

theorem declarable (name : String) : Declarable (fun _ => True) name :=
  ⟨.catchClause (some name) ⟨⟨0, 0⟩, .empty⟩, trivial, List.mem_singleton.2 rfl⟩

theorem hasClasses : HasClasses fun _ => True := ⟨.classExpression ⟨none, none, [], ⟨0, 0⟩⟩, trivial, rfl⟩

/-- **A property that every step keeps is kept by every piece**, if it is kept in the scope that it names. -/
theorem keeps {Ok : ScopeId → Prop} {P : Binder → Prop} (S : Typeahead.Stable (fun _ => True) Ok P)
    (hleave : ∀ {b}, P b → ∀ stop, P (b.leave stop)) {b : Binder} (p : Piece) (hscope : ∀ scope ∈ p.scope?, Ok scope)
    (h : P b) : P (p.run b) := by
  cases p with
  | statement n => exact stable_statement S n (fun _ _ => trivial) h
  | statements l => exact stable_statements S l (allThroughout_true l) h
  | optionalStatement o => exact stable_optionalStatement S o (allThroughout_true _) h
  | loopStart o => exact stable_loopStart S o (allThroughout_true _) h
  | loopTargets scope iterated kind l =>
    exact stable_loopTargets S (hscope scope rfl) iterated kind l (allThroughout_true l) h
  | cases l => exact stable_cases S l (allThroughout_true l) h
  | catchClause o => exact stable_catchClause S o (allThroughout_true _) h
  | declarators kind l => exact stable_declarators S kind l (allThroughout_true l) h
  | classValue symbol o => exact stable_classValue S symbol o (allThroughout_true _) h
  | parenthesizedClass symbol n => exact stable_parenthesizedClass S symbol n (fun _ _ => trivial) h
  | pattern scope source kind n =>
    exact stable_pattern S (hscope scope rfl) source kind n (fun _ _ => trivial) (fun name _ => declarable name) h
  | propertyPatterns scope source kind l =>
    exact stable_propertyPatterns S (hscope scope rfl) source kind l (allThroughout_true l) (fun name _ => declarable name) h
  | elementPatterns scope element kind l =>
    exact stable_elementPatterns S (hscope scope rfl) element kind l (allThroughout_true l) (fun name _ => declarable name) h
  | parameters l => exact stable_parameters S l (allThroughout_true l) h
  | function parts start symbol isStatic => exact stable_function S parts start symbol isStatic (allThroughout_true _) h
  | classBody parts symbol => exact stable_classBody S parts hasClasses symbol (allThroughout_true _) h
  | classElements l => exact stable_classElements S l (allThroughout_true l) h
  | expression n => exact stable_expression S n (fun _ _ => trivial) h
  | optional o => exact stable_optional S o (allThroughout_true _) h
  | expressions l => exact stable_expressions S l (allThroughout_true l) h
  | properties l => exact stable_properties S l (allThroughout_true l) h
  | openBlock start => exact S.enter h .block (by decide) start
  | openClass start symbol => exact S.openClass h hasClasses start symbol
  | hoist l => exact S.hoist (allThroughout_true l) h
  | declare scope name kind type => exact S.declare h (hscope scope rfl) (fun _ => declarable name) kind type
  | refineResult scope name own parts =>
    rw [run, Binder.refineResult]
    split
    · exact h
    · split
      · exact S.retype h (hscope scope rfl) (declarable name) _
      · exact h
  | trackAssignments n => exact S.trackAssignments h n
  | define scope symbol => exact S.define h (hscope scope rfl) (declarable symbol.name) symbol.kind symbol.type
  | leave stop => exact hleave h stop

end Piece
end Binder

/-- To bind a script visits a piece, from the state on in which its functions are declared. -/
def Node.Visits (program : Node) (tracksAssignments : Bool) (inner : Binder.Piece × Binder) : Prop :=
  match program.kind with
  | .program body => Binder.Visits (.statements body, (Binder.start tracksAssignments).hoist body) inner
  | _ => Binder.Visits (.statement program, Binder.start tracksAssignments) inner

end Typeahead
