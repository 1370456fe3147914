/-
# Expressions are no blocks

No production of expressions makes a block, so the body of an arrow function is a block only if it is in braces.

Key definition: `NoBlock`.
Key theorem: `noBlock_parseLevel`.
-/
import Typeahead.Proofs.Parse.Run

namespace Typeahead

open Parse Grammar

variable {α : Type} {g : Grammar}

/-- What the parse makes is no block. -/
def NoBlock (x : Parse Node) : Prop := ∀ s n t, x s = .ok n t → n.isBlock = false

namespace NoBlock

variable {x : Parse Node}

theorem pure {n : Node} (hn : n.isBlock = false) : NoBlock (Pure.pure n) := fun _ _ _ h => by
  cases h
  exact hn

theorem throw (e : ParseError) : NoBlock (throw e) := fun _ _ _ h => nomatch h

theorem bind {f : α → Parse Node} {y : Parse α} (hf : ∀ a, NoBlock (f a)) : NoBlock (y >>= f) :=
  fun _ _ _ h => by
    obtain ⟨a, u, -, h⟩ := bind_ok.1 h
    exact hf a u _ _ h

/-- What is passed on is no block. -/
theorem bind_of {f : Node → Parse Node} (hx : NoBlock x) (hf : ∀ n, n.isBlock = false → NoBlock (f n)) :
    NoBlock (x >>= f) := fun _ _ _ h => by
  obtain ⟨n, u, hn, h⟩ := bind_ok.1 h
  exact hf n (hx _ _ _ hn) u _ _ h

theorem nested (hx : NoBlock x) : NoBlock (nested x) := fun _ _ _ h => by
  obtain ⟨-, u, hu, -⟩ := nested_ok h
  exact hx _ _ _ hu

theorem finish (start : Nat) {kind : NodeKind} (hkind : ∀ range, Node.isBlock ⟨range, kind⟩ = false) :
    NoBlock (finish start kind) :=
  .bind fun _ => .pure (hkind _)

end NoBlock

section

variable {levels : Nat}

theorem noBlock_leaf {kind : Token → NodeKind} (hkind : ∀ token range, Node.isBlock ⟨range, kind token⟩ = false) :
    NoBlock (leaf kind) :=
  .bind fun token => .finish _ (hkind token)

theorem isBlock_literalOfToken (token : Token) (range : TextRange) :
    Node.isBlock ⟨range, literalOfToken token⟩ = false := by
  rw [literalOfToken]
  split
  · rfl
  · split <;> rfl

theorem isBlock_reservedExpression {word : String} {kind : NodeKind} (h : reservedExpression? word = some kind)
    (range : TextRange) : Node.isBlock ⟨range, kind⟩ = false := by
  rw [reservedExpression?.eq_def] at h
  split at h <;> cases h <;> rfl

theorem noBlock_arrowRest {start : Nat} {params : List Node} {isAsync : Bool} :
    NoBlock (arrowRest g start params isAsync) := by
  refine .bind fun _ => .bind fun s => ?_
  split <;> exact .bind fun _ => .pure rfl

theorem noBlock_singleParameterArrow {start : Nat} {isAsync : Bool} :
    NoBlock (singleParameterArrow g start isAsync) :=
  .bind fun _ => .bind fun _ => .bind fun _ => noBlock_arrowRest

theorem noBlock_functionExpression {start : Nat} {isAsync : Bool} :
    NoBlock (functionExpression g start isAsync) := by
  refine .bind fun _ => .bind fun _ => .bind fun s => ?_
  split <;> exact .bind fun _ => .bind fun _ => .pure rfl

theorem noBlock_asyncPrimary : NoBlock (asyncPrimary g) := by
  have hname : ∀ start, NoBlock (do
      let token ← next
      finish start (.identifier token.text)) := fun _ => .bind fun _ => .finish _ fun _ => rfl
  refine .bind fun s => ?_
  dsimp only
  split
  · exact hname _
  split
  · exact .bind fun _ => noBlock_functionExpression
  split
  · exact .bind fun _ => noBlock_singleParameterArrow
  split
  · refine .bind fun params => ?_
    split
    · exact noBlock_arrowRest
    · exact hname _
  · exact hname _

theorem noBlock_namePrimary : NoBlock (namePrimary g) := by
  refine .bind fun s => ?_
  split
  · exact noBlock_singleParameterArrow
  · exact .bind fun _ => .finish _ fun _ => rfl

theorem noBlock_newExpression : NoBlock (newExpression g) := by
  refine .bind fun start => .bind fun _ => .bind fun dot => ?_
  have hfinish : ∀ callee items, NoBlock (finish start (.new callee items)) := fun _ _ => .finish _ fun _ => rfl
  have hrest : ∀ (s : ParserState) (callee : Node), NoBlock (do
      let callee ← newCalleeTail g s.offset s.rounds callee
      let items ← if (← get).atMark .openParen then arguments g else pure []
      finish start (.new callee items)) := fun s callee => .bind fun callee => .bind fun s => by
    split <;> exact .bind fun _ => hfinish _ _
  split
  · exact .bind fun _ => .finish _ fun _ => rfl
  · refine .bind fun s => ?_
    split <;> exact .bind fun _ => hrest _ _

theorem noBlock_primary (hnew : NoBlock (g .newExpression)) : NoBlock (primary g) := by
  refine .bind fun s => ?_
  split
  · exact noBlock_asyncPrimary
  · exact noBlock_leaf fun _ _ => rfl
  · exact noBlock_leaf isBlock_literalOfToken
  · exact noBlock_leaf isBlock_literalOfToken
  · exact noBlock_leaf fun _ _ => rfl
  · split
    · exact noBlock_leaf fun _ => isBlock_reservedExpression ‹_›
    · exact .throw _
  · refine .bind fun params => ?_
    split
    · exact noBlock_arrowRest
    · exact .bind fun _ => .bind fun _ => .bind fun _ => .finish _ fun _ => rfl
  · exact .bind fun _ => .bind fun _ => .bind fun _ => .bind fun _ => .finish _ fun _ => rfl
  · exact .bind fun _ => .bind fun _ => .bind fun _ => .bind fun _ => .finish _ fun _ => rfl
  · exact noBlock_functionExpression
  · exact .bind fun _ => .finish _ fun _ => rfl
  · exact hnew
  · split
    · exact noBlock_namePrimary
    · exact .throw _

theorem noBlock_suffixes {start : Nat} : ∀ {rounds : Nat} {n : Node}, n.isBlock = false →
    NoBlock (suffixes g start rounds n)
  | 0, _, hn => .pure hn
  | rounds + 1, n, hn => by
    have hrest : ∀ {kind : NodeKind}, (∀ range, Node.isBlock ⟨range, kind⟩ = false) →
        NoBlock (finish start kind >>= suffixes g start rounds) := fun hkind =>
      (NoBlock.finish _ hkind).bind_of fun _ => noBlock_suffixes
    refine .bind fun s => ?_
    split
    · exact .bind fun _ => .bind fun _ => hrest fun _ => rfl
    · refine .bind fun _ => .bind fun s => ?_
      split
      · exact .bind fun _ => hrest fun _ => rfl
      · exact .bind fun _ => hrest fun _ => rfl
      · exact .bind fun _ => hrest fun _ => rfl
    · exact .bind fun _ => hrest fun _ => rfl
    · exact .bind fun _ => hrest fun _ => rfl
    · exact .bind fun _ => hrest fun _ => rfl
    · exact .pure hn

theorem noBlock_leftHandSide (hnew : NoBlock (g .newExpression)) : NoBlock (leftHandSide g) := by
  have hrest : ∀ (s : ParserState) (n : Node), n.isBlock = false →
      NoBlock (if n.isArrowFunction then pure n else suffixes g s.offset s.rounds n) := by
    intro s n hn
    split
    · exact .pure hn
    · exact noBlock_suffixes hn
  refine .bind fun s => ?_
  split
  · exact noBlock_newExpression.bind_of (hrest s)
  · exact (noBlock_primary hnew).bind_of (hrest s)

theorem noBlock_unary (hnew : NoBlock (g .newExpression)) : NoBlock (unary g) := by
  refine .nested (.bind fun s => ?_)
  split
  · exact .bind fun _ => .bind fun _ => .pure rfl
  · split
    · exact .bind fun _ => .bind fun _ => .pure rfl
    · refine (noBlock_leftHandSide hnew).bind_of fun n hn => .bind fun s => ?_
      dsimp only
      split
      · exact .bind fun _ => .finish _ fun _ => rfl
      · exact .pure hn

theorem noBlock_binaryTail {start least : Nat} : ∀ {rounds : Nat} {n : Node}, n.isBlock = false →
    NoBlock (binaryTail g start least rounds n)
  | 0, _, hn => .pure hn
  | rounds + 1, n, hn => by
    refine .bind fun s => ?_
    split
    · exact .pure hn
    · split
      · exact .pure hn
      · refine .bind fun _ => .bind fun right => noBlock_binaryTail ?_
        rw [binaryNode]
        split <;> rfl

theorem noBlock_assignment (hnew : NoBlock (g .newExpression)) : NoBlock (assignment g) := by
  have hconditional : NoBlock (conditional g) := by
    refine .bind fun start => NoBlock.bind_of (.bind fun s => ?_) fun test htest => .bind fun asks => ?_
    · exact (noBlock_unary hnew).bind_of fun _ => noBlock_binaryTail
    · split
      · exact .pure htest
      · exact .bind fun _ => .bind fun _ => .bind fun _ => .pure rfl
  refine .nested (.bind fun start => hconditional.bind_of fun target htarget => .bind fun s => ?_)
  dsimp only
  split
  · exact .pure htarget
  · exact .bind fun _ => .bind fun _ => .pure rfl

/-- With however many levels an assignment is no block. -/
theorem noBlock_parseLevel : ∀ levels : Nat, NoBlock (parseLevel levels .assignment)
  | 0 => fun _ _ _ h => nomatch h
  | levels + 1 => by
    refine noBlock_assignment ?_
    cases levels with
    | zero => exact fun _ _ _ h => nomatch h
    | succ levels => exact noBlock_newExpression

end

end Typeahead
