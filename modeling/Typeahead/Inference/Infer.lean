/-
# Types of access chains

The type of the text in front of the cursor: its head is typed where the cursor is,
and each step leads from the type before it to the next. What cannot be resolved is
unknown, and so is all that follows from it, unless names may be guessed from.

Key definitions: `Inference`, `Inference.typeAt`, `Inference.typeAtPosition`,
`Inference.memberType`.
-/
import Typeahead.Grammar.Script
import Typeahead.Inference.Chain
import Typeahead.Inference.Guess
import Typeahead.Scope.Environment
import Typeahead.Text.Lines

namespace Typeahead

/-- The scopes of a text, and whether unknown types may be guessed from names. -/
structure Inference where
  tree : ScopeTree
  guesses : Bool

namespace Inference

/-- A type, or a guess if nothing is known and guesses are wanted. -/
def orGuess (inference : Inference) (type : Ty) (guess : Option Ty) : Ty :=
  if inference.guesses then type.orElse (guess.getD .unknown) else type

/-- The value of a member. A method that is not called is a function. -/
def memberValue (found : Member) (called : Bool) : Ty :=
  match found.kind, called with
  | .method, true => found.type
  | .method, false => .function (some found.name) [] found.type
  | .property, true => found.type.callResult
  | .property, false => found.type

/-- The key in an index that is a string in single or double quotes. One mark alone is
no string. -/
def stringKey? (text : List Char) : Option String :=
  match text with
  | mark :: rest =>
    if (mark = '\x27' ∨ mark = '\x22') ∧ rest.getLast? = some mark then
      some (String.ofList rest.dropLast)
    else none
  | [] => none

/-- What an index that is no string gives. -/
def indexed : Ty → Ty
  | .array element => element
  | .primitive .string => .string
  | .object (some "NodeList") _ => .named "HTMLElement"
  | _ => .unknown

/-- The type of a head. The built-in names come before the names of the script. -/
def headType (inference : Inference) (scope : ScopeId) (head : String) : Ty :=
  let chars := head.toList
  if head = "this" then inference.tree.thisType scope
  else if Text.isIdentifier chars then
    let type := match Catalog.globalType? head with
      | some type => type
      | none => ((inference.tree.resolve? scope head).map (·.typeOrUnknown)).getD .unknown
    inference.orGuess type (Guess.ofName? head)
  else
    match parseExpression chars with
    | .ok node => inference.tree.evaluate scope node
    | .error _ => .unknown

/-- The type after a step. -/
def stepType (inference : Inference) (scope : ScopeId) (type : Ty) : ChainStep → Ty
  | .member name called =>
    let value := match inference.tree.lookup? scope type name with
      | some found => memberValue found called
      | none => .unknown
    inference.orGuess value (if called then Guess.ofMethod? name else Guess.ofName? name)
  | .index text =>
    match stringKey? text.toList with
    | some key =>
      match inference.tree.lookup? scope type key with
      | some found => memberValue found false
      | none => .unknown
    | none => indexed type
  | .call => type.callResult

/-- The type of a chain. -/
def chainType (inference : Inference) (scope : ScopeId) (chain : AccessChain) : Ty :=
  chain.steps.foldl (inference.stepType scope) (inference.headType scope chain.head)

/-- The type of a text as it is seen from an offset. -/
def typeAt (inference : Inference) (text : List Char) (offset : Nat) : Ty :=
  match AccessChain.ofText? text with
  | some chain => inference.chainType (inference.tree.scopeAt ScopeTree.root offset) chain
  | none => .unknown

/-- The type of a text as it is seen from a place. A line past the end reads as the
end of the text. -/
def typeAtPosition (inference : Inference) (lines : LineMap) (text : List Char) (p : Position) :
    Ty :=
  inference.typeAt text ((lines.offset? p).getD lines.length)

/-- The type of a member of a type. The classes that a class extends are looked up from
the global scope. -/
def memberType (inference : Inference) (type : Ty) (name : String) : Ty :=
  ((inference.tree.lookup? ScopeTree.root type name).map (·.type)).getD .unknown

end Inference
end Typeahead
