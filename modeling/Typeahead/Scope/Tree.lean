/-
# Scopes

The scopes of a script form a tree. A scope is known by its place in the order in
which the scopes were opened; the global scope is the first. A scope covers a range
of offsets and owns the symbols declared in it, in order. Members of a class are
symbols of the scope of its body, but no names: they are reached through `this`.

A walk towards the root is cut after `ScopeTree.walkLimit` scopes.

Key definitions: `Symbol`, `Scope`, `ScopeTree`, `ScopeTree.openScope?`,
`ScopeTree.close`, `ScopeTree.resolve?`, `ScopeTree.visible`, `ScopeTree.scopeAt`,
`ScopeTree.thisType`.
-/
import Typeahead.Types.Basic

namespace Typeahead

/-- What a symbol is. -/
inductive SymbolKind where
  | variable | constant | function | classType | parameter | property | method
  deriving DecidableEq, Repr, Inhabited

namespace SymbolKind

/-- The spelling of a kind of symbol. -/
def name : SymbolKind → String
  | .variable => "variable"
  | .constant => "constant"
  | .function => "function"
  | .classType => "class"
  | .parameter => "parameter"
  | .property => "property"
  | .method => "method"

/-- A member of a class, which is no name. -/
def isMember : SymbolKind → Bool
  | .property | .method => true
  | _ => false

/-- The kind of the symbol of a class member. -/
def ofMember : MemberKind → SymbolKind
  | .property => .property
  | .method => .method

end SymbolKind

/-- A declared name. The type is absent where nothing is known of the value. -/
structure Symbol where
  name : String
  kind : SymbolKind
  type : Option Ty
  deriving Inhabited

/-- The type of a symbol. -/
def Symbol.typeOrUnknown (symbol : Symbol) : Ty := symbol.type.getD .unknown

/-- What a scope is. -/
inductive ScopeKind where
  | global | function | block | classBody | arrow | catch
  deriving DecidableEq, Repr, Inhabited

namespace ScopeKind

/-- The spelling of a kind of scope. -/
def name : ScopeKind → String
  | .global => "global"
  | .function => "function"
  | .block => "block"
  | .classBody => "class"
  | .arrow => "arrow"
  | .catch => "catch"

/-- A scope of this kind owns the `var` declarations in it. -/
def ownsVariables : ScopeKind → Bool
  | .function | .arrow | .global => true
  | _ => false

end ScopeKind

/-- A scope by its place in the order in which the scopes were opened. -/
abbrev ScopeId := Nat

/-- A scope. The class is that of a class body, and the function that of a function
or method; `isStatic` tells that the method is static. -/
structure Scope where
  kind : ScopeKind
  parent : Option ScopeId
  symbols : Entries Symbol
  children : List ScopeId
  start : Nat
  stop : Nat
  classSymbol : Option Symbol
  functionSymbol : Option Symbol
  isStatic : Bool
  depth : Nat
  deriving Inhabited

namespace Scope

/-- A scope just opened. -/
def opened (kind : ScopeKind) (parent : Option ScopeId) (start depth : Nat) : Scope :=
  ⟨kind, parent, [], [], start, start, none, none, false, depth⟩

/-- The offset lies in the scope, whose end does not belong to it. -/
def contains (scope : Scope) (offset : Nat) : Bool := scope.start ≤ offset && offset < scope.stop

end Scope

/-- The scopes of a script in the order in which they were opened. -/
structure ScopeTree where
  scopes : Array Scope
  deriving Inhabited

namespace ScopeTree

/-- The global scope. -/
def root : ScopeId := 0

/-- How many scopes a walk towards the root, or to the leaves, visits at most. -/
def walkLimit : Nat := 10000

/-- Only the global scope. -/
def empty : ScopeTree := ⟨#[.opened .global none 0 0]⟩

/-- The scope of an id. -/
def get? (tree : ScopeTree) (id : ScopeId) : Option Scope := tree.scopes[id]?

/-- The number of scopes. -/
def size (tree : ScopeTree) : Nat := tree.scopes.size

/-- The tree with one scope changed, or as it is if there is no such scope. -/
def modify (tree : ScopeTree) (id : ScopeId) (change : Scope → Scope) : ScopeTree :=
  ⟨tree.scopes.modify id change⟩

/-! ### Building -/

/-- The tree with a scope under a parent, and the new scope. It starts no sooner than
its parent. -/
def openScope? (tree : ScopeTree) (parent : ScopeId) (kind : ScopeKind) (start : Nat) :
    Option (ScopeTree × ScopeId) :=
  (tree.get? parent).map fun above =>
    let id := tree.size
    let opened := Scope.opened kind (some parent) (max start above.start) (above.depth + 1)
    let linked := tree.modify parent fun s => { s with children := s.children ++ [id] }
    (⟨linked.scopes.push opened⟩, id)

/-- The last end of some scopes. -/
def lastStop (tree : ScopeTree) (ids : List ScopeId) : Nat :=
  ids.foldl (fun last id => max last (((tree.get? id).map (·.stop)).getD 0)) 0

/-- The tree with a scope ended. A scope ends no sooner than it starts and than its
children end. -/
def close (tree : ScopeTree) (id : ScopeId) (stop : Nat) : ScopeTree :=
  tree.modify id fun s => { s with stop := max (max stop s.start) (tree.lastStop s.children) }

/-- The tree with the class of a class body. -/
def setClass (tree : ScopeTree) (id : ScopeId) (symbol : Symbol) : ScopeTree :=
  tree.modify id fun s => { s with classSymbol := some symbol }

/-- The tree with the function or method of a function scope. -/
def setFunction (tree : ScopeTree) (id : ScopeId) (symbol : Symbol) (isStatic : Bool) : ScopeTree :=
  tree.modify id fun s => { s with functionSymbol := some symbol, isStatic }

/-- The tree with a symbol in a scope, in place of one of its name. -/
def define (tree : ScopeTree) (id : ScopeId) (symbol : Symbol) : ScopeTree :=
  tree.modify id fun s => { s with symbols := s.symbols.insert symbol.name symbol }

/-- The tree without a symbol of a scope. -/
def remove (tree : ScopeTree) (id : ScopeId) (name : String) : ScopeTree :=
  tree.modify id fun s => { s with symbols := s.symbols.erase name }

/-- The symbol of a name in a scope. -/
def symbol? (tree : ScopeTree) (id : ScopeId) (name : String) : Option Symbol :=
  (tree.get? id).bind fun s => s.symbols.get? name

/-- The tree with another type for a symbol of a scope, if it is there. -/
def retype (tree : ScopeTree) (id : ScopeId) (name : String) (type : Option Ty) : ScopeTree :=
  match tree.symbol? id name with
  | some symbol =>
    tree.modify id fun s => { s with symbols := s.symbols.insert name { symbol with type } }
  | none => tree

/-! ### Looking up -/

/-- A scope and those around it, innermost first, at most `steps` of them. -/
def ancestorsWithin (tree : ScopeTree) : (steps : Nat) → ScopeId → List ScopeId
  | 0, _ => []
  | steps + 1, id =>
    match tree.get? id with
    | none => []
    | some scope =>
      match scope.parent with
      | none => [id]
      | some parent => id :: ancestorsWithin tree steps parent

/-- A scope and those around it, innermost first. -/
def ancestors (tree : ScopeTree) (id : ScopeId) : List ScopeId := tree.ancestorsWithin walkLimit id

/-- The name a scope binds itself. -/
def ownBinding? (tree : ScopeTree) (id : ScopeId) (name : String) : Option Symbol :=
  (tree.symbol? id name).filter fun symbol => !symbol.kind.isMember

/-- The nearest binding of a name and the scope that owns it. -/
def resolveWithScope? (tree : ScopeTree) (id : ScopeId) (name : String) :
    Option (ScopeId × Symbol) :=
  (tree.ancestors id).findSome? fun owner =>
    (tree.ownBinding? owner name).map fun symbol => (owner, symbol)

/-- The nearest binding of a name. -/
def resolve? (tree : ScopeTree) (id : ScopeId) (name : String) : Option Symbol :=
  (tree.resolveWithScope? id name).map (·.2)

/-- The names a scope binds itself, in order. -/
def bindings (tree : ScopeTree) (id : ScopeId) : List Symbol :=
  match tree.get? id with
  | none => []
  | some scope => scope.symbols.values.filter fun symbol => !symbol.kind.isMember

/-- Every name that is visible in a scope, innermost scope first. An inner name hides
the outer ones. -/
def visible (tree : ScopeTree) (id : ScopeId) : List Symbol :=
  (tree.ancestors id).foldl
    (fun seen scope =>
      seen ++ (tree.bindings scope).filter fun symbol => !seen.any (·.name == symbol.name))
    []

/-- The deepest scope at an offset below a scope, going down at most `steps` times.
Where scopes overlap the last opened one is taken. -/
def scopeAtWithin (tree : ScopeTree) (offset : Nat) : (steps : Nat) → ScopeId → ScopeId
  | 0, id => id
  | steps + 1, id =>
    let inside (child : ScopeId) : Bool :=
      ((tree.get? child).map (·.contains offset)).getD false
    match (tree.get? id).bind fun scope => scope.children.reverse.find? inside with
    | some child => scopeAtWithin tree offset steps child
    | none => id

/-- The deepest scope at an offset below a scope. -/
def scopeAt (tree : ScopeTree) (id : ScopeId) (offset : Nat) : ScopeId :=
  tree.scopeAtWithin offset walkLimit id

/-- The class of a class body, seen from a side. -/
def classOnSide (scope : Scope) (side : ClassSide) : Ty :=
  match scope.classSymbol.bind (·.type) with
  | some (.class info) => .class (info.onSide side)
  | _ => .unknown

/-- The class around a function: that of the nearest class body. -/
def enclosingClass (side : ClassSide) : List Scope → Ty
  | [] => .unknown
  | scope :: outer => if scope.kind = .classBody then classOnSide scope side else enclosingClass side outer

/-- The type of `this` in the first of some nested scopes. Blocks and arrow functions
leave `this` as it is. A function has the `this` of the class around it. -/
def thisTypeIn : List Scope → Ty
  | [] => .unknown
  | scope :: outer =>
    match scope.kind with
    | .arrow | .block | .catch => thisTypeIn outer
    | .global => .unknown
    | .classBody => classOnSide scope .instanceSide
    | .function =>
      enclosingClass (if scope.isStatic then .constructorSide else .instanceSide) outer

/-- The type of `this` in a scope. -/
def thisType (tree : ScopeTree) (id : ScopeId) : Ty :=
  thisTypeIn ((tree.ancestors id).filterMap tree.get?)

/-- The first scope that is the body of a class of the name. -/
def classScope? (tree : ScopeTree) (name : String) : Option ScopeId :=
  tree.scopes.findIdx? fun scope =>
    scope.kind = .classBody && (scope.classSymbol.map (·.name)) == some name

end ScopeTree
end Typeahead
