/-
# Reported scopes

Key definition: `ScopeTree.toJson`.
-/
import Typeahead.Report.Types
import Typeahead.Scope.Tree

namespace Typeahead

/-- A symbol. -/
def Symbol.toJson (style : EntryStyle) (symbol : Symbol) : Json :=
  .object [
    ("name", .str symbol.name),
    ("type", .ofOption (Ty.toJson style) symbol.type),
    ("kind", .str symbol.kind.name)]

/-- The number that is reported for the parent of a scope that has none. -/
def ScopeTree.absent : Nat := 4294967295

/-- A scope. Its symbols are written by name. -/
def Scope.toJson (style : EntryStyle) (scope : Scope) : Json :=
  .object [
    ("kind", .str scope.kind.name),
    ("parent", .nat (scope.parent.getD ScopeTree.absent)),
    ("symbols", .object (scope.symbols.map fun entry => (entry.1, entry.2.toJson style))),
    ("children", .ofList .nat scope.children),
    ("start", .nat scope.start),
    ("end", .nat scope.stop),
    ("class_symbol", .ofOption (Symbol.toJson style) scope.classSymbol),
    ("function_symbol", .ofOption (Symbol.toJson style) scope.functionSymbol),
    ("is_static", .bool scope.isStatic),
    ("depth", .nat scope.depth)]

/-- The scopes in the order in which they were opened. -/
def ScopeTree.toJson (style : EntryStyle) (tree : ScopeTree) : Json :=
  .object [("scopes", .ofList (Scope.toJson style) tree.scopes.toList)]

end Typeahead
