/-
# Documents

A text in a language, with its lines and, for a script, its scopes and the errors in
it. A text of another language has only the global scope.

Key definitions: `Document`, `Document.ofText`.
-/
import Typeahead.Inference.Infer
import Typeahead.Inference.Offered
import Typeahead.Language
import Typeahead.Scope.Binding

namespace Typeahead

/-- A text that is looked into. -/
structure Document where
  text : List Char
  language : Language
  tree : ScopeTree
  lines : LineMap
  faults : List ParseError

namespace Document

/-- The document of a text. -/
def ofText (text : List Char) (language : Language) : Document :=
  let bound := if language.isScript then bindText {} text else ⟨.empty, []⟩
  ⟨text, language, bound.tree, .ofText text, bound.faults⟩

/-- The length of the text. -/
def length (d : Document) : Nat := d.lines.length

/-- Types as the document tells them, with guesses or without. -/
def inference (d : Document) (guesses : Bool) : Inference := ⟨d.tree, guesses⟩

/-- The type of an access chain as it is seen from an offset. -/
def typeAt (d : Document) (guesses : Bool) (chain : List Char) (offset : Nat) : Ty :=
  (d.inference guesses).typeAt chain offset

/-- The members offered after an access chain. -/
def membersAt (d : Document) (guesses : Bool) (chain : List Char) (offset : Nat) :
    List OfferedMember :=
  d.tree.offered (d.typeAt guesses chain offset)

end Document
end Typeahead
