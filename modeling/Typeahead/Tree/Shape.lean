/-
# Readings of a tree

What the type of a function, a class or an object takes from its syntax: the static
keys, the names of the parameters, the values a body returns, and the values it
assigns to members of `this`.

Key definitions: `Node.propertyKey?`, `Node.parameterNames`, `Node.returned`,
`Node.selfMembers`.
-/
import Typeahead.Entries
import Typeahead.Tree.Node

namespace Typeahead.Node

/-- The key of a property, where it stands in the text. -/
def propertyKey? (key : Node) (computed : Bool) : Option String :=
  match key.kind with
  | .identifier name => if computed then none else some name
  | .stringLiteral value => some value
  | .numericLiteral _ raw => some raw
  | _ => none

/-- The names of parameters as they are shown: a rest parameter after three dots, and
empty braces for a pattern. -/
def parameterNames (params : List Node) : List String :=
  params.filterMap fun p =>
    match p.kind with
    | .parameter name _ _ true => some ("..." ++ name)
    | .parameter "" _ _ false => some "\x7b\x7d"
    | .parameter name _ _ false => some name
    | _ => none

/-- The class that an expression is, with or without parentheses around it. -/
def classExpression? (n : Node) : Option (ClassParts Node) :=
  match n.unparenthesized.kind with
  | .classExpression parts => some parts
  | _ => none

mutual
/-- The arguments of the `return` statements of a body, without those of the
functions and classes in it. -/
def returned : Node → List Node
  | ⟨_, .return (some argument)⟩ => [argument]
  | ⟨_, .block body⟩ => returnedInAll body
  | ⟨_, .if _ consequent alternate⟩ => returned consequent ++ returnedInSome alternate
  | ⟨_, .while _ body⟩ => returned body
  | ⟨_, .doWhile body _⟩ => returned body
  | ⟨_, .for _ _ _ body⟩ => returned body
  | ⟨_, .forInOf _ _ body _⟩ => returned body
  | ⟨_, .switch _ cases⟩ => returnedInAll cases
  | ⟨_, .switchCase _ consequent⟩ => returnedInAll consequent
  | ⟨_, .try block handler finalizer⟩ =>
    returned block ++ returnedInSome handler ++ returnedInSome finalizer
  | ⟨_, .catchClause _ body⟩ => returned body
  | _ => []

/-- The arguments of the `return` statements of some statements. -/
def returnedInAll : List Node → List Node
  | [] => []
  | n :: rest => returned n ++ returnedInAll rest

/-- The arguments of the `return` statements of a statement that may be absent. -/
def returnedInSome : Option Node → List Node
  | none => []
  | some n => returned n
end

/-- The name in `this.name`. -/
def selfMember? : Node → Option String
  | ⟨_, .member ⟨_, .this⟩ property false _⟩ => property.identifier?
  | _ => none

mutual
/-- The assignments `this.name = value` of a method, in statements and in the arrow
functions that are arguments of calls, with the names as often as they occur. -/
def selfAssigned : Node → List (String × Node)
  | ⟨_, .assignment operator target value⟩ =>
    if operator = .punct .equals then
      match selfMember? target with
      | some name => (name, value) :: selfAssigned value
      | none => selfAssigned value
    else []
  | ⟨_, .expressionStatement expression⟩ => selfAssigned expression
  | ⟨_, .sequence expressions⟩ => selfAssignedInAll expressions
  | ⟨_, .block body⟩ => selfAssignedInAll body
  | ⟨_, .if _ consequent alternate⟩ => selfAssigned consequent ++ selfAssignedInSome alternate
  | ⟨_, .try block _ _⟩ => selfAssigned block
  | ⟨_, .call _ arguments _⟩ => selfAssignedInArrows arguments
  | _ => []

/-- The assignments of some statements. -/
def selfAssignedInAll : List Node → List (String × Node)
  | [] => []
  | n :: rest => selfAssigned n ++ selfAssignedInAll rest

/-- The assignments of a statement that may be absent. -/
def selfAssignedInSome : Option Node → List (String × Node)
  | none => []
  | some n => selfAssigned n

/-- The assignments in the bodies of the arrow functions among some arguments. -/
def selfAssignedInArrows : List Node → List (String × Node)
  | [] => []
  | ⟨_, .arrowFunction _ body _⟩ :: rest => selfAssigned body ++ selfAssignedInArrows rest
  | _ :: rest => selfAssignedInArrows rest
end

/-- The values that a method assigns to members of `this`, each name as it comes
first. -/
def selfMembers (body : Node) : Entries Node :=
  (selfAssigned body).foldl
    (fun found entry => if (found.get? entry.1).isSome then found else found ++ [entry]) []

end Typeahead.Node
