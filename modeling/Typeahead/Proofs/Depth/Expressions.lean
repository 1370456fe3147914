/-
# The depth of expressions

The loops over members, calls and operators make each node deeper than the one before it,
without counting; so does `new` before `new`, and `**` after `**`. What such a chain holds besides
its links is no deeper than elsewhere. Unary operators and assignments count.

Key theorems: `makes_primary`, `makes_suffixes`, `makes_binary`, `makes_assignment`.
-/
import Typeahead.Proofs.Depth.Literals

namespace Typeahead

open Parse Grammar Node

variable {depth most : Nat} {g : Grammar}

theorem makes_leaf {kind : Token → NodeKind} (hk : ∀ token, (kind token).children = [])
    (ha : ∀ token, (kind token).Abbreviates) : Makes depth (Node.Shaped most) (leaf kind) :=
  .next fun token => .finish fun _ => .leaf (hk token) (ha token)

section

variable (hg : g.Shapes depth most)
include hg

/-! ### Arrow functions -/

theorem makes_arrowParameters? :
    Makes depth (fun o => ∀ params ∈ o, AllShaped (most + 2) params) (arrowParameters? g) := by
  intro s o t hs hrun
  refine ⟨((hg.proceeds.arrowParameters? s).ok hrun).depth.trans hs, fun params hparams => ?_⟩
  obtain rfl : o = some params := hparams
  rw [Grammar.arrowParameters?] at hrun
  split at hrun
  · cases hrun
  · split at hrun
    · rename_i hlist
      split at hrun <;> cases hrun
      exact (makes_parameterList hg s _ _ hs hlist).2
    · cases hrun

theorem makes_asyncArrowParameters? :
    Makes depth (fun o => ∀ params ∈ o, AllShaped (most + 2) params) (asyncArrowParameters? g) := by
  intro s o t hs hrun
  refine ⟨((hg.proceeds.asyncArrowParameters? s).ok hrun).depth.trans hs, ?_⟩
  rw [Grammar.asyncArrowParameters?] at hrun
  split at hrun
  · cases hrun
    exact fun _ h => by cases h
  · exact (makes_arrowParameters? hg s.advance o t hs hrun).2

theorem makes_arrowRest {start : Nat} {params : List Node} {isAsync : Bool} (hparams : AllShaped (most + 2) params) :
    Makes depth (Node.Shaped (most + 3)) (arrowRest g start params isAsync) := by
  refine .expectKind fun _ => .look fun s => ?_
  split
  · exact (makes_block hg).allowIn.bind fun body h => .pure (.plain rfl trivial
      (.append hparams (.single (h.mono (Nat.le_succ _)))))
  · exact hg.assignment.bind fun body h => .pure (.plain rfl trivial
      (.append hparams (.single (h.mono (Nat.le_add_right ..)))))

theorem makes_singleParameterArrow {start : Nat} {isAsync : Bool} :
    Makes depth (Node.Shaped (most + 3)) (singleParameterArrow g start isAsync) :=
  .offset fun _ => .bindingName fun _ => (Makes.finish fun _ => .leaf rfl trivial).bind fun _ h =>
    makes_arrowRest hg (.single h)

theorem makes_parenthesizedOrArrow {start : Nat} :
    Makes depth (Node.Shaped (most + 3)) (parenthesizedOrArrow g start) := by
  refine (makes_arrowParameters? hg).bind fun o ho => ?_
  cases o with
  | some params => exact makes_arrowRest hg (ho params rfl)
  | none =>
    exact .expectKind fun _ => (makes_innerSequence hg).allowIn.bind fun _ h => .expectKind fun _ =>
      (Makes.finish fun _ => .plain rfl trivial (.single h)).mono (Nat.le_succ _)

/-! ### Primary expressions -/

theorem makes_functionExpression {start : Nat} {isAsync : Bool} :
    Makes depth (Node.Shaped (most + 2)) (functionExpression g start isAsync) := by
  have hend : ∀ name : Option String, Makes depth (Node.Shaped (most + 2))
      (do return functionNode start (← functionRest g name isAsync)) := fun _ =>
    (makes_functionRest hg).bind fun _ h => .pure h.functionNode
  refine .expectKind fun _ => .nextIf fun _ => .look fun s => ?_
  split
  · exact .built (fun _ => .map (.bindingName (O := fun _ => True)) fun _ _ => trivial) fun name => hend name
  · exact hend none

theorem makes_asyncPrimary : Makes depth (Node.Shaped (most + 3)) (asyncPrimary g) := by
  have hname : ∀ start, Makes depth (Node.Shaped (most + 3)) (do
      let token ← next
      finish start (.identifier token.text)) := fun _ => .next fun _ => .finish fun _ => .leaf rfl trivial
  refine .look fun s => ?_
  dsimp only
  split
  · exact hname _
  split
  · exact .next fun _ => (makes_functionExpression hg).mono (Nat.le_succ _)
  split
  · exact .next fun _ => makes_singleParameterArrow hg
  split
  · refine (makes_asyncArrowParameters? hg).bind fun o ho => ?_
    cases o with
    | some params => exact makes_arrowRest hg (ho params rfl)
    | none => exact hname _
  · exact hname _

theorem makes_namePrimary : Makes depth (Node.Shaped (most + 3)) (namePrimary g) := by
  refine .look fun s => ?_
  split
  · exact makes_singleParameterArrow hg
  · exact .next fun _ => .finish fun _ => .leaf rfl trivial

theorem makes_primary : Makes depth (Node.Shaped (most + 4)) (primary g) := by
  refine .look fun s => ?_
  split
  · exact (makes_asyncPrimary hg).mono (Nat.le_succ _)
  · exact makes_leaf (fun _ => rfl) fun _ => trivial
  · exact .next fun _ => .finish fun _ => shaped_literalOfToken _ _
  · exact .next fun _ => .finish fun _ => shaped_literalOfToken _ _
  · exact makes_leaf (fun _ => rfl) fun _ => trivial
  · split
    · rename_i kind hkind
      have hleaf : kind.children = [] ∧ kind.Abbreviates := by
        unfold reservedExpression? at hkind
        split at hkind <;> cases hkind <;> exact ⟨rfl, trivial⟩
      exact makes_leaf (fun _ => hleaf.1) fun _ => hleaf.2
    · exact .fail
  · exact (makes_parenthesizedOrArrow hg).mono (Nat.le_succ _)
  · exact (makes_arrayLiteral hg).mono (by omega)
  · exact (makes_objectLiteral hg).mono (by omega)
  · exact (makes_functionExpression hg).mono (by omega)
  · exact (makes_classParts hg).bind fun parts h => .finish fun _ =>
      .node (Nat.lt_succ_self _) trivial h.superclass h.members
  · exact hg.makes .newExpression
  · split
    · exact (makes_namePrimary hg).mono (Nat.le_succ _)
    · exact .fail

/-! ### Suffixes -/

omit hg in
/-- A member is as deep as its object. -/
theorem makes_memberNode {start : Nat} {object property : Node} {computed optional : Bool}
    (ho : object.Shaped (most + 4)) (hp : property.Shaped (most + 1)) :
    Makes depth (Node.Shaped (most + 4)) (memberNode start object property computed optional) :=
  .finish fun _ => .node (Nat.lt_succ_self _) trivial (.single ho) (.single (hp.mono (by omega)))

theorem makes_newCalleeTail {start : Nat} : ∀ (rounds : Nat) {callee : Node}, callee.Shaped (most + 4) →
    Makes depth (Node.Shaped (most + 4)) (newCalleeTail g start rounds callee)
  | 0, _, h => .pure h
  | rounds + 1, callee, h => by
    rw [newCalleeTail]
    refine .look fun s => ?_
    split
    · exact .next fun _ => makes_memberName.bind fun _ hp => (makes_memberNode h hp).bind fun _ hn =>
        makes_newCalleeTail rounds hn
    · exact (makes_computedKey hg).bind fun _ hp => (makes_memberNode h hp).bind fun _ hn =>
        makes_newCalleeTail rounds hn
    · exact .pure h

theorem makes_newExpression : Makes depth (Node.Shaped (most + 4)) (newExpression g) := by
  have hrest : ∀ {callee : Node} (s : ParserState) start, callee.Shaped (most + 4) →
      Makes depth (Node.Shaped (most + 4)) (do
        let callee ← newCalleeTail g s.offset s.rounds callee
        let items ← if (← get).atMark .openParen then arguments g else pure []
        finish start (.new callee items)) := by
    intro callee s start h
    refine (makes_newCalleeTail hg _ h).bind fun tail htail => .look fun u => ?_
    split
    · exact (makes_arguments hg).bind fun items hitems => .finish fun _ =>
        .node (Nat.lt_succ_self _) trivial (.single htail) (hitems.mono (by omega))
    · exact .finish fun _ => .node (Nat.lt_succ_self _) trivial (.single htail) .nil
  refine .offset fun start => .expectKind fun _ => .nextIf fun b => ?_
  split
  · exact .anyWord fun _ => .finish fun _ => .leaf rfl trivial
  · refine .look fun s => ?_
    dsimp only
    split
    · exact (hg.makes .newExpression).bind fun _ h => hrest s start h
    · exact (makes_primary hg).bind fun _ h => hrest s start h

theorem makes_suffixes {start : Nat} : ∀ (rounds : Nat) {expression : Node}, expression.Shaped (most + 4) →
    Makes depth (Node.Shaped (most + 4)) (suffixes g start rounds expression)
  | 0, _, h => .pure h
  | rounds + 1, expression, h => by
    have hmember : ∀ {property} computed optional, property.Shaped (most + 1) →
        Makes depth (Node.Shaped (most + 4)) (do
          suffixes g start rounds (← memberNode start expression property computed optional)) :=
      fun _ _ hp => (makes_memberNode h hp).bind fun _ hn => makes_suffixes rounds hn
    have hcall : ∀ {items} optional, AllShaped (most + 1) items → Makes depth (Node.Shaped (most + 4)) (do
        suffixes g start rounds (← finish start (.call expression items optional))) := fun _ hitems =>
      (Makes.finish fun _ => .node (Nat.lt_succ_self _) trivial (.single h) (hitems.mono (by omega))).bind
        fun _ hn => makes_suffixes rounds hn
    rw [suffixes]
    refine .look fun s => ?_
    split
    · exact .next fun _ => makes_memberName.bind fun _ hp => hmember false false hp
    · refine .next fun _ => .look fun u => ?_
      split
      · exact (makes_arguments hg).bind fun _ hitems => hcall true hitems
      · exact (makes_computedKey hg).bind fun _ hp => hmember true true hp
      · exact makes_memberName.bind fun _ hp => hmember false true hp
    · exact (makes_computedKey hg).bind fun _ hp => hmember true false hp
    · exact (makes_arguments hg).bind fun _ hitems => hcall false hitems
    · exact .bind (makes_leaf (fun _ => rfl) fun _ => trivial) fun _ ht => hcall false (.single ht)
    · exact .pure h

theorem makes_leftHandSide : Makes depth (Node.Shaped (most + 4)) (leftHandSide g) := by
  have hrest : ∀ {expression : Node} start rounds, expression.Shaped (most + 4) → Makes depth (Node.Shaped (most + 4))
      (if expression.isArrowFunction then pure expression else suffixes g start rounds expression) := by
    intro expression start rounds h
    split
    · exact .pure h
    · exact makes_suffixes hg rounds h
  refine .look fun s => ?_
  split
  · exact (makes_newExpression hg).bind fun _ h => hrest _ _ h
  · exact (makes_primary hg).bind fun _ h => hrest _ _ h

theorem makes_postfixExpression {start : Nat} : Makes depth (Node.Shaped (most + 5)) (postfixExpression g start) := by
  refine (makes_leftHandSide hg).bind fun expression h => .look fun s => ?_
  dsimp only
  split
  · exact .next fun _ => .finish fun _ => .plain rfl trivial (.single h)
  · exact .pure (h.mono (Nat.le_succ _))

end

/-! ### Operators -/

variable (hg : ∀ depth, g.Shapes depth (room depth))
include hg

theorem makes_unary : Makes depth (Node.Shaped (room depth)) (unary g) := by
  refine .nested (.look fun s => ?_)
  split
  · exact .next fun _ => .mono ((hg _).unary.bind fun _ h => .pure (.plain rfl trivial (.single h))) (by omega)
  · split
    · exact .next fun _ => .mono ((hg _).unary.bind fun _ h => .pure (.plain rfl trivial (.single h))) (by omega)
    · exact (makes_postfixExpression (hg _)).mono (by omega)

omit hg in
/-- No operator binds tighter than `**`, and all others bind less tight. -/
theorem binaryPrecedence?_le {noIn : Bool} {operator : TokenKind} {precedence : Nat}
    (h : binaryPrecedence? noIn operator = some precedence) :
    precedence ≤ 11 ∧ (operator ≠ .punct .asteriskAsterisk → precedence < 11) := by
  unfold binaryPrecedence? at h
  split at h
  · split at h <;> cases h
    exact ⟨by decide, fun _ => by decide⟩
  · cases h
    exact ⟨by decide, fun _ => by decide⟩
  · split at h <;> cases h <;> exact ⟨by decide, by simp⟩
  · cases h

omit hg in
/-- The node of an operator is as deep as its left operand; so it is as its right one for `**`. -/
theorem shaped_binaryNode {operator : TokenKind} {precedence least : Nat} {noIn : Bool} {left right : Node}
    {range : TextRange} (hp : binaryPrecedence? noIn operator = some precedence) (hle : least ≤ precedence)
    (hl : left.Shaped (most + (12 - least)))
    (hr : right.Shaped (most + (12 - rightPrecedence operator precedence))) :
    Node.Shaped (most + (12 - least)) ⟨range, binaryNode operator left right⟩ := by
  obtain ⟨hmost, hother⟩ := binaryPrecedence?_le hp
  have hplain : operator ≠ .punct .asteriskAsterisk →
      12 - rightPrecedence operator precedence < 12 - least := fun hne => by
    have := hother hne
    rw [rightPrecedence, if_neg hne]
    omega
  rw [binaryNode]
  split
  · rename_i hlogical
    have hne : operator ≠ .punct .asteriskAsterisk := by
      rintro rfl
      cases hlogical
    exact .node (Nat.add_lt_add_left (hplain hne) most) trivial (.single hl) (.single hr)
  · by_cases hpower : operator = .punct .asteriskAsterisk
    · have hlt : most < most + (12 - least) := by omega
      refine .node hlt trivial ?_ ?_
      · rw [NodeKind.chained, if_pos hpower]
        refine .cons hl (.single (hr.mono ?_))
        rw [rightPrecedence, if_pos hpower]
        omega
      · rw [NodeKind.nested, if_pos hpower]
        exact .nil
    · refine .node (Nat.add_lt_add_left (hplain hpower) most) trivial ?_ ?_
      · rw [NodeKind.chained, if_neg hpower]
        exact .single hl
      · rw [NodeKind.nested, if_neg hpower]
        exact .single hr

omit hg in
theorem makes_binaryTail (hg : g.Shapes depth most) {start least : Nat} : ∀ (rounds : Nat) {left : Node},
    left.Shaped (most + (12 - least)) → Makes depth (Node.Shaped (most + (12 - least)))
      (binaryTail g start least rounds left)
  | 0, _, h => .pure h
  | rounds + 1, left, h => by
    rw [binaryTail]
    refine .look fun s => ?_
    split
    · exact .pure h
    · rename_i precedence hp
      split
      · exact .pure h
      · rename_i hle
        exact .next fun _ => (hg.makes (.binary _)).bind fun right hr =>
          makes_binaryTail hg rounds (shaped_binaryNode hp (Nat.le_of_not_lt hle) h hr)

theorem makes_binary {least : Nat} : Makes depth (Node.Shaped (room depth + (12 - least))) (binary g least) :=
  .look fun s => (makes_unary hg).bind fun _ h => makes_binaryTail (hg depth) s.rounds (h.mono (Nat.le_add_right ..))

theorem makes_conditional : Makes depth (Node.Shaped (room depth + 12)) (conditional g) := by
  refine .offset fun start => (makes_binary hg).bind fun test htest => .nextIf fun question => ?_
  split
  · exact .pure (htest.mono (Nat.le_succ _))
  · exact (hg depth).assignment.allowIn.bind fun consequent hconsequent => .expectKind fun _ =>
      (hg depth).assignment.bind fun alternate halternate => .pure (.plain rfl trivial (.cons htest
        (.cons (hconsequent.mono (Nat.le_add_right ..)) (.single (halternate.mono (Nat.le_add_right ..))))))

theorem makes_assignment : Makes depth (Node.Shaped (room depth)) (assignment g) := by
  refine .nested (.offset fun start => (makes_conditional hg).bind fun target htarget => .look fun s => ?_)
  dsimp only
  split
  · exact .pure (htarget.mono (Nat.le_succ _))
  · exact .next fun _ => (hg _).assignment.bind fun value hvalue => .pure (.plain rfl trivial
      (.cons htarget (.single (hvalue.mono (Nat.le_add_right ..)))))

end Typeahead
