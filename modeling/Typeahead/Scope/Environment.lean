/-
# What is known in a scope

An expression in a scope sees the names of that scope and of those around it, and
then the built-in names. A member that a class does not have itself is looked for in
the classes it extends, up to `ScopeTree.lineageLimit` of them, and at last in the
built-in type it extends.

Key definitions: `ScopeTree.parentClass?`, `ScopeTree.lineage`, `ScopeTree.lookup?`,
`ScopeTree.environment`.
-/
import Typeahead.Scope.Tree
import Typeahead.Types.Evaluation

namespace Typeahead

/-- What a class extends: classes, nearest first, and the name it ends with where that is
no class of the script. -/
structure Lineage where
  classes : List (ClassInfo Ty)
  last : Option String

namespace ScopeTree

/-- How many classes are followed from a class to those it extends. -/
def lineageLimit : Nat := 16

/-- The class that a class extends, seen from the same side. Its name is looked up in
a scope and, failing that, among all classes of the script. -/
def parentClass? (tree : ScopeTree) (id : ScopeId) (info : ClassInfo Ty) :
    Option (ClassInfo Ty) := do
  let name ← info.parent
  let symbol ← match tree.resolve? id name with
    | some symbol => some symbol
    | none => (tree.classScope? name).bind tree.get? |>.bind (·.classSymbol)
  match symbol.type with
  | some (.class parent) => some (parent.onSide info.side)
  | _ => none

/-- What a class extends, following at most `steps` classes. -/
def lineageWithin (tree : ScopeTree) (id : ScopeId) : (steps : Nat) → ClassInfo Ty → Lineage
  | 0, _ => ⟨[], none⟩
  | steps + 1, info =>
    match tree.parentClass? id info with
    | none => ⟨[], info.parent⟩
    | some parent =>
      let further := lineageWithin tree id steps parent
      ⟨parent :: further.classes, further.last⟩

/-- What a class extends. -/
def lineage (tree : ScopeTree) (id : ScopeId) (info : ClassInfo Ty) : Lineage :=
  tree.lineageWithin id lineageLimit info

/-- A member that a class inherits. Only instances inherit from a built-in type. -/
def inherited? (tree : ScopeTree) (id : ScopeId) (info : ClassInfo Ty) (name : String) :
    Option Member :=
  let line := tree.lineage id info
  match line.classes.findSome? fun c => (Ty.class c).lookup? name, info.side, line.last with
  | some found, _, _ => some found
  | none, .instanceSide, some builtIn => (Ty.named builtIn).lookup? name
  | none, _, _ => none

/-- A member of a type, its own or inherited. -/
def lookup? (tree : ScopeTree) (id : ScopeId) (type : Ty) (name : String) : Option Member :=
  match type.lookup? name, type with
  | some found, _ => some found
  | none, .class info => tree.inherited? id info name
  | none, _ => none

/-- The type of a name in a scope. A declared name of which nothing is known is
unknown and not looked for among the built-in names. -/
def typeOf? (tree : ScopeTree) (id : ScopeId) (name : String) : Option Ty :=
  match tree.resolve? id name with
  | some symbol => some symbol.typeOrUnknown
  | none => Catalog.globalType? name

/-- What is known in a scope. -/
def environment (tree : ScopeTree) (id : ScopeId) : TypeEnvironment where
  typeOf? := tree.typeOf? id
  thisType := tree.thisType id
  memberType? := fun object name => (tree.lookup? id object name).map (·.type)
  construct := fun name => TypeEnvironment.constructed (tree.typeOf? id name) name

/-- The type of an expression in a scope. -/
def evaluate (tree : ScopeTree) (id : ScopeId) (node : Node) : Ty := node.typeIn (tree.environment id)

end ScopeTree
end Typeahead
