/-
# Trees of operators

Operands joined by binary operators make a tree. It is grouped by precedence if no operator stands above
one that binds less tightly, operators of the same precedence are joined from the left, and `**` from the
right. Of all trees that read the same only one is grouped.

Key definitions: `Token.precedence`, `OperatorTree`, `OperatorTree.node`, `OperatorTree.Grouped`.
Key theorems: `OperatorTree.Grouped.root_le`, `OperatorTree.Grouped.unique`.
-/
import Typeahead.Grammar.Expression

namespace Typeahead

open Grammar

/-! ### Operators and operands -/

namespace Token

/-- How tightly a token binds as a binary operator; 0 if it is none. -/
def precedence (token : Token) : Nat := (binaryPrecedence? false token.kind).getD 0

/-- A binary operator, `in` among them. -/
def isOperator (token : Token) : Bool := (binaryPrecedence? false token.kind).isSome

/-- A name that is an expression by itself. -/
def isOperand (token : Token) : Bool := token.kind.isBindingName && token.kind != .keyword .asyncWord

variable {token o : Token}

theorem binaryPrecedence?_of_isOperator (h : token.isOperator = true) :
    binaryPrecedence? false token.kind = some token.precedence := by
  rw [isOperator, Option.isSome_iff_exists] at h
  obtain ⟨p, hp⟩ := h
  rw [precedence, hp, Option.getD_some]

theorem one_le_precedence (h : token.isOperator = true) : 1 ≤ token.precedence := by
  rw [isOperator] at h
  rw [precedence]
  cases hk : token.kind with
  | keyword word => rw [hk] at h; cases word <;> first | decide | cases h
  | punct mark => rw [hk] at h; cases mark <;> first | decide | cases h
  | _ => rw [hk] at h; cases h

/-- Nothing binds more tightly than `**`. -/
theorem precedence_le_power (token : Token) :
    token.precedence ≤ 11 ∧ (token.precedence = 11 ↔ token.kind = .punct .asteriskAsterisk) := by
  rw [precedence]
  cases token.kind with
  | keyword word => cases word <;> decide
  | punct mark => cases mark <;> decide
  | _ => decide

/-- An operator that binds too loosely for the right operand of another takes that one to its left. -/
theorem left_of_lt_rightPrecedence (h : token.precedence < rightPrecedence o.kind o.precedence) :
    token.precedence ≤ o.precedence ∧ token.kind ≠ .punct .asteriskAsterisk := by
  obtain ⟨hle, hpower⟩ := o.precedence_le_power
  obtain ⟨-, hpower'⟩ := token.precedence_le_power
  rw [rightPrecedence] at h
  split at h
  · exact ⟨Nat.le_of_lt h, fun hk => by have := hpower'.2 hk; omega⟩
  · rename_i hne
    exact ⟨Nat.le_of_lt_succ h, fun hk => hne (hpower.1 (by have := hpower'.2 hk; omega))⟩

end Token

/-! ### Trees of operators -/

/-- Operands joined by binary operators. -/
inductive OperatorTree where
  | operand (token : Token)
  | join (left : OperatorTree) (operator : Token) (right : OperatorTree)

namespace OperatorTree

/-- The tokens of a tree from left to right. -/
def tokens : OperatorTree → List Token
  | operand token => [token]
  | join left operator right => left.tokens ++ operator :: right.tokens

/-- The operators of a tree from left to right. -/
def operators : OperatorTree → List Token
  | operand _ => []
  | join left operator right => left.operators ++ operator :: right.operators

/-- The operator at the top. -/
def root? : OperatorTree → Option Token
  | operand _ => none
  | join _ operator _ => some operator

/-- A tree as a node. `&&`, `||` and `??` make logical expressions, all others binary ones. -/
def node : OperatorTree → Node
  | operand token => ⟨⟨token.start, token.stop⟩, .identifier token.text⟩
  | join left operator right => ⟨⟨left.node.start, right.node.stop⟩, match operator.kind with
    | .punct .ampersandAmpersand | .punct .barBar | .punct .questionQuestion =>
      .logical operator.kind left.node right.node
    | _ => .binary operator.kind left.node right.node⟩

/-- A tree is grouped by precedence: the operator at the top of a left operand binds at least as tightly, that
of a right operand more tightly; but `**` has no operator at the top of its left operand, and may have
another `**` at the top of its right operand. -/
inductive Grouped : OperatorTree → Prop where
  | operand (token : Token) : Grouped (operand token)
  | join {left right : OperatorTree} {operator : Token} : left.Grouped → right.Grouped →
    (∀ o ∈ left.root?, operator.precedence ≤ o.precedence ∧ operator.kind ≠ .punct .asteriskAsterisk) →
    (∀ o ∈ right.root?, if operator.kind = .punct .asteriskAsterisk then operator.precedence ≤ o.precedence
      else operator.precedence < o.precedence) →
    Grouped (join left operator right)

variable {tree left right left' right' : OperatorTree} {o operator operator' : Token}

theorem length_tokens_mod_two : ∀ tree : OperatorTree, tree.tokens.length % 2 = 1
  | operand _ => rfl
  | join left _ right => by
    have := left.length_tokens_mod_two
    have := right.length_tokens_mod_two
    rw [tokens, List.length_append, List.length_cons]
    omega

/-- Two ways to split a list at an element split it at the same one, or one of them earlier. -/
theorem append_cons_cases {α : Type} {x x' : α} {front front' back back' : List α}
    (h : front ++ x :: back = front' ++ x' :: back') :
    (front = front' ∧ x = x' ∧ back = back') ∨
      (∃ between, front' = front ++ x :: between ∧ back = between ++ x' :: back') ∨
      ∃ between, front = front' ++ x' :: between ∧ back' = between ++ x :: back := by
  rcases List.append_eq_append_iff.1 h with ⟨_ | ⟨_, between⟩, hfront, hback⟩ |
    ⟨_ | ⟨_, between⟩, hfront, hback⟩
  · exact .inl ⟨by simpa using hfront.symm, List.cons.inj hback⟩
  · obtain ⟨rfl, hrest⟩ := List.cons.inj hback
    exact .inr (.inl ⟨between, hfront, hrest⟩)
  · obtain ⟨rfl, hrest⟩ := List.cons.inj hback
    exact .inl ⟨by simpa using hfront, rfl, hrest.symm⟩
  · obtain ⟨rfl, hrest⟩ := List.cons.inj hback
    exact .inr (.inr ⟨between, hfront, hrest⟩)

/-- The operators are the tokens behind an odd number of others. -/
theorem mem_operators_of_odd : ∀ {tree : OperatorTree} {front back : List Token},
    tree.tokens = front ++ o :: back → front.length % 2 = 1 → o ∈ tree.operators
  | operand token, front, back, h, hodd => by
    have := congrArg List.length h
    simp only [tokens, List.length_append, List.length_cons, List.length_nil] at this
    omega
  | join left operator right, front, back, h, hodd => by
    rw [operators, List.mem_append, List.mem_cons]
    rcases append_cons_cases h with ⟨-, heq, -⟩ | ⟨between, hfront, hright⟩ | ⟨between, hleft, -⟩
    · exact .inr (.inl heq.symm)
    · refine .inr (.inr (mem_operators_of_odd hright ?_))
      have := left.length_tokens_mod_two
      rw [hfront, List.length_append, List.length_cons] at hodd
      omega
    · exact .inl (mem_operators_of_odd hleft hodd)

namespace Grouped

/-- No operator of a tree binds less tightly than that at its top. -/
theorem root_le (h : tree.Grouped) : ∀ o ∈ tree.operators, ∃ r ∈ tree.root?, r.precedence ≤ o.precedence := by
  induction h with
  | operand => exact fun o ho => absurd ho List.not_mem_nil
  | @join left right operator _ _ hleft hright ihleft ihright =>
    intro o ho
    refine ⟨operator, rfl, ?_⟩
    rcases List.mem_append.1 ho with ho | ho
    · obtain ⟨r, hr, hle⟩ := ihleft o ho
      exact Nat.le_trans (hleft r hr).1 hle
    · rcases List.mem_cons.1 ho with rfl | ho
      · exact Nat.le_refl _
      · obtain ⟨r, hr, hle⟩ := ihright o ho
        have hright := hright r hr
        split at hright <;> omega

/-- Of two groupings of the same tokens neither is joined at an earlier operator than the other. -/
theorem not_earlier (h : (OperatorTree.join left operator right).Grouped)
    (h' : (OperatorTree.join left' operator' right').Grouped)
    {between : List Token} (hleft : left'.tokens = left.tokens ++ operator :: between)
    (hright : right.tokens = between ++ operator' :: right'.tokens) : False := by
  have hbetween : between.length % 2 = 1 := by
    have hodd' := left'.length_tokens_mod_two
    have hodd := left.length_tokens_mod_two
    rw [hleft, List.length_append, List.length_cons] at hodd'
    omega
  -- the earlier operator stands in the left operand of the later one, that in the right operand of the earlier
  cases h with
  | join _ hgrouped _ hroot =>
    cases h' with
    | join hgrouped' _ hroot' _ =>
      obtain ⟨r, hr, hle⟩ := hgrouped'.root_le _ (mem_operators_of_odd hleft left.length_tokens_mod_two)
      obtain ⟨r', hr', hle'⟩ := hgrouped.root_le _ (mem_operators_of_odd hright hbetween)
      obtain ⟨hprecedence, hpower⟩ := hroot' r hr
      have hroot := hroot r' hr'
      split at hroot
      · rename_i hk
        have := operator.precedence_le_power.2.2 hk
        have := operator'.precedence_le_power
        exact hpower (this.2.1 (by omega))
      · omega

/-- **Tokens are grouped in one way only.** -/
theorem unique : ∀ {tree other : OperatorTree}, tree.Grouped → other.Grouped → other.tokens = tree.tokens →
    other = tree
  | .operand token, .operand token', _, _, heq => by
    rw [(List.cons.inj heq).1]
  | .operand _, .join left _ right, _, _, heq => by
    have hlength := congrArg List.length heq
    have := left.length_tokens_mod_two
    simp only [tokens, List.length_append, List.length_cons, List.length_nil] at hlength
    omega
  | .join left _ right, .operand _, _, _, heq => by
    have hlength := congrArg List.length heq
    have := left.length_tokens_mod_two
    simp only [tokens, List.length_append, List.length_cons, List.length_nil] at hlength
    omega
  | .join left operator right, .join left' operator' right', h, h', heq => by
    rcases append_cons_cases heq with ⟨hleft, rfl, hright⟩ | ⟨between, hleft, hright⟩ |
      ⟨between, hleft, hright⟩
    · cases h with
      | join hl hr =>
        cases h' with
        | join hl' hr' => rw [unique hl hl' hleft, unique hr hr' hright]
    · exact (not_earlier h' h hleft hright).elim
    · exact (not_earlier h h' hleft hright).elim

end Grouped
end OperatorTree

end Typeahead
