/-
# The state of binding

While a script is bound its scopes are opened and closed one inside the other, and
names are declared in them with the types their values have at that point.

Key definitions: `Binder`, `Binder.enter`, `Binder.leave`, `Binder.declare`,
`Binder.hoist`, `Binder.refineResult`, `Binder.trackAssignment`.
-/
import Typeahead.Scope.Environment

namespace Typeahead

/-- What has been bound so far, the scope that is open, and whether assignments tell
the types of names declared without one. -/
structure Binder where
  tree : ScopeTree
  current : ScopeId
  tracksAssignments : Bool

namespace Binder

/-- Nothing has been bound. -/
def start (tracksAssignments : Bool) : Binder := ⟨.empty, ScopeTree.root, tracksAssignments⟩

/-- Open a scope in the current one. -/
def enter (b : Binder) (kind : ScopeKind) (start : Nat) : Binder :=
  match b.tree.openScope? b.current kind start with
  | some (tree, id) => { b with tree, current := id }
  | none => b

/-- Close the current scope and return to the one around it. -/
def leave (b : Binder) (stop : Nat) : Binder :=
  let parent := (b.tree.get? b.current).bind (·.parent)
  { b with tree := b.tree.close b.current stop, current := parent.getD b.current }

/-- The scope that owns the `var` declarations of the current one. -/
def variableScope (b : Binder) : ScopeId :=
  let owns (id : ScopeId) : Bool := ((b.tree.get? id).map (·.kind.ownsVariables)).getD false
  ((b.tree.ancestors b.current).find? owns).getD ScopeTree.root

/-- The scope that a declaration belongs to. -/
def declarationScope (b : Binder) : VariableKind → ScopeId
  | .varKind => b.variableScope
  | .letKind | .constKind => b.current

/-- Declare a name in a scope. The empty name is none. -/
def declare (b : Binder) (scope : ScopeId) (name : String) (kind : SymbolKind) (type : Option Ty) :
    Binder :=
  if name.isEmpty then b else { b with tree := b.tree.define scope ⟨name, kind, type⟩ }

/-- What is known in the current scope. -/
def environment (b : Binder) : TypeEnvironment := b.tree.environment b.current

/-- The type of an expression in the current scope. -/
def evaluate (b : Binder) (node : Node) : Ty := node.typeIn b.environment

/-- The type of a member, as the current scope sees it. -/
def memberType? (b : Binder) (object : Ty) (name : String) : Option Ty :=
  (b.tree.lookup? b.current object name).map (·.type)

/-- The symbol of a class, as the current scope sees it. -/
def classSymbol (b : Binder) (parts : ClassParts Node) (name : String) : Symbol :=
  ⟨name, .classType, some (.class (Evaluator.classInfo Node.typeIn b.environment parts name))⟩

/-- Declare the functions of a list of statements, which are known from its start. -/
def hoist (b : Binder) (statements : List Node) : Binder :=
  statements.foldl
    (fun b statement =>
      match statement.kind with
      | .functionDeclaration parts =>
        match parts.name with
        | some name =>
          b.declare b.current name .function
            (some (Evaluator.functionType Node.typeIn b.environment parts none))
        | none => b
      | _ => b)
    b

/-- Declare the members of a class in the scope of its body. -/
def declareMembers (b : Binder) (symbol : Symbol) : Binder :=
  match symbol.type with
  | some (.class info) =>
    info.members.foldl
      (fun b m => b.declare b.current m.name (.ofMember m.kind) (some m.type)) b
  | _ => b

/-- Give the scope of a class body its class. -/
def setClass (b : Binder) (symbol : Symbol) : Binder :=
  { b with tree := b.tree.setClass b.current symbol }

/-- Give the current scope the function it belongs to, if that has a symbol. -/
def setFunction (b : Binder) (symbol : Option Symbol) (isStatic : Bool) : Binder :=
  match symbol with
  | some symbol => { b with tree := b.tree.setFunction b.current symbol isStatic }
  | none => b

/-- The symbol of a method, from the members declared in the current scope. -/
def methodSymbol (b : Binder) (key : String) : Symbol :=
  (b.tree.symbol? b.current key).getD ⟨key, .method, none⟩

/-- The type of the first returned value of a bound function of which something is
known, each seen from the scope it stands in. -/
def result? (b : Binder) (scope : ScopeId) (body : Node) : Option Ty :=
  body.returned.findSome? fun argument =>
    let type := b.tree.evaluate (b.tree.scopeAt scope argument.start) argument
    if type.isUnknown then none else some type

/-- Give a declared function the type of its result, now that the scope of its body
is bound, if that was not known. The result of an `async` function is known. -/
def refineResult (b : Binder) (declaredIn : ScopeId) (name : String) (scope : ScopeId)
    (parts : FunctionParts Node) : Binder :=
  if parts.isAsync then b
  else
    match b.result? scope parts.body, (b.tree.symbol? declaredIn name).bind (·.type) with
    | some type, some (.function own params .unknown) =>
      { b with tree := b.tree.retype declaredIn name (some (.function own params type)) }
    | _, _ => b

/-- Give a name of which nothing is known the type of what is assigned to it. -/
def trackAssignment (b : Binder) (expression : Node) : Binder :=
  match expression.kind with
  | .assignment (.punct .equals) target value =>
    match target.identifier?.bind (b.tree.resolveWithScope? b.current) with
    | some (owner, symbol) =>
      if symbol.typeOrUnknown.isUnknown then
        let type := b.evaluate value
        if type.isUnknown then b
        else { b with tree := b.tree.retype owner symbol.name (some type) }
      else b
    | none => b
  | _ => b

end Binder

/-- The kind of the symbols that a variable keyword declares. -/
def VariableKind.symbolKind : VariableKind → SymbolKind
  | .constKind => .constant
  | .letKind | .varKind => .variable

/-- What a loop over the elements of a value yields. -/
def Ty.iterated (type : Ty) : Ty :=
  match type.element? with
  | some element => element
  | none =>
    if type.isPrimitive .string then .string
    else if type.catalogName? = some "NodeList" then .named "HTMLElement"
    else .unknown

end Typeahead
