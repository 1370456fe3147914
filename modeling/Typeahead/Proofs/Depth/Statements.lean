/-
# The depth of statements

A statement counts as deeper than what it stands in, and holds what it does a few steps down. So
with any number of levels the grammar shapes the trees it makes.

Key theorems: `makes_statement`, `parseLevel_shapes`.
-/
import Typeahead.Proofs.Depth.Expressions

namespace Typeahead

open Parse Grammar Node

variable {depth most : Nat} {g : Grammar}

section

variable (hg : g.Shapes depth most)
include hg

/-! ### Declarations -/

theorem makes_variableDeclarator : Makes depth (Node.Shaped (most + 3)) (variableDeclarator g) := by
  have hinit : ∀ {target : Node} start, target.Shaped (most + 2) → Makes depth (Node.Shaped (most + 3)) (do
      let init ← if ← nextMark .equals then some <$> g .assignment else pure none
      finish start (.variableDeclarator target init)) := fun start htarget =>
    .nextIf fun equals => .optional hg.assignment fun init hinit => .finish fun _ =>
      .plain rfl trivial (.cons htarget (hinit.mono (Nat.le_add_right ..)))
  have hname : ∀ start, Makes depth (Node.Shaped (most + 3)) (do
      let name ← bindingName
      let target ← finish start (.identifier name)
      let init ← if ← nextMark .equals then some <$> g .assignment else pure none
      finish start (.variableDeclarator target init)) := fun start =>
    .bindingName fun name => (Makes.finish fun _ => .leaf rfl trivial).bind fun target h => hinit start h
  refine .look fun s => ?_
  cases s.kind with
  | punct mark =>
    cases mark
    case openBrace => exact (makes_objectLiteral hg).bind fun target h => hinit _ h
    case openBracket => exact (makes_arrayLiteral hg).bind fun target h => hinit _ h
    all_goals exact hname _
  | _ => exact hname _

theorem makes_variableDeclaration : Makes depth (Node.Shaped (most + 4)) (variableDeclaration g) :=
  .next fun _ => (makes_variableDeclarator hg).bind fun _ hfirst =>
    (Makes.list (.next fun _ => (makes_variableDeclarator hg).bind fun _ h => .pure (.single h))).bind
      fun _ hothers => .finish fun _ => .plain rfl trivial (.cons hfirst hothers)

theorem makes_variableStatement : Makes depth (Node.Shaped (most + 4)) (variableStatement g) :=
  .offset fun _ => (makes_variableDeclaration hg).bind fun _ h => .semicolon fun _ =>
    .finish fun _ => h.moved

theorem makes_functionDeclaration : Makes depth (Node.Shaped (most + 3)) (functionDeclaration g) :=
  .offset fun _ => .nextIf fun _ => .expectKind fun _ => .nextIf fun _ => .bindingName fun _ =>
    (makes_functionRest hg).bind fun _ h => .pure (.plain rfl trivial
      (.append h.params (.single (h.body.mono (Nat.le_succ _)))))

theorem makes_classDeclaration : Makes depth (Node.Shaped (most + 4)) (classDeclaration g) :=
  .offset fun _ => (makes_classParts hg).bind fun _ h => .pure
    (.node (Nat.lt_succ_self _) trivial h.superclass h.members)

theorem makes_returnStatement : Makes depth (Node.Shaped (most + 2)) (returnStatement g) := by
  have hrest : ∀ start {argument : Option Node}, AllShaped (most + 1) argument.toList →
      Makes depth (Node.Shaped (most + 2)) (do
        semicolon
        finish start (.return argument)) := fun start argument h =>
    .semicolon fun _ => .finish fun _ => .plain rfl trivial h
  exact .offset fun start => .expectKind fun _ => .look fun s => .ite (hrest start .nil)
    (.present (makes_innerSequence hg) fun argument h => hrest start h)

/-! ### Control flow -/

theorem makes_condition : Makes depth (Node.Shaped (most + 1)) (condition g) :=
  .expectKind fun _ => (makes_innerSequence hg).allowIn.bind fun _ h => .expectKind fun _ => .pure h

theorem makes_ifStatement : Makes depth (Node.Shaped (most + 2)) (ifStatement g) :=
  .offset fun _ => .expectReserved fun _ => (makes_condition hg).bind fun _ htest =>
    hg.statement.bind fun _ hconsequent => .nextIf fun _ => .optional hg.statement fun _ h =>
      .finish fun _ => .plain rfl trivial (.cons htest (.cons (hconsequent.mono (Nat.le_succ _))
        (h.mono (Nat.le_succ _))))

theorem makes_whileStatement : Makes depth (Node.Shaped (most + 2)) (whileStatement g) :=
  .offset fun _ => .expectReserved fun _ => (makes_condition hg).bind fun _ htest =>
    hg.statement.bind fun _ h => .finish fun _ => .plain rfl trivial
      (.cons htest (.single (h.mono (Nat.le_succ _))))

theorem makes_doStatement : Makes depth (Node.Shaped (most + 2)) (doStatement g) :=
  .offset fun _ => .expectReserved fun _ => hg.statement.bind fun _ h => .expectReserved fun _ =>
    (makes_condition hg).bind fun _ htest => .nextIf fun _ => .finish fun _ => .plain rfl trivial
      (.cons htest (.single (h.mono (Nat.le_succ _))))

theorem makes_forInit : Makes depth (fun o => AllShaped (most + 4) o.toList) (forInit g) := by
  refine .look fun s => .ite (.pure .nil) ?_
  refine (Makes.withNoIn (.ite (makes_variableDeclaration hg) ?_)).bind fun init h => .pure (.single h)
  exact (makes_innerSequence hg).mono (by omega)

theorem makes_forInOfRest {start : Nat} {left : Node} (hleft : left.Shaped (most + 4)) :
    Makes depth (Node.Shaped (most + 5)) (forInOfRest g start left) := by
  have hrest : ∀ {right : Node} isOf, right.Shaped (most + 1) → Makes depth (Node.Shaped (most + 5)) (do
      let _ ← expect .closeParen
      let body ← g .statement
      finish start (.forInOf left right body isOf)) := fun isOf hright =>
    .expectKind fun _ => hg.statement.bind fun body hbody => .finish fun _ => .plain rfl trivial
      (.cons hleft (.cons (hright.mono (by omega)) (.single (hbody.mono (by omega)))))
  exact .next fun token => .ite (hg.assignment.bind fun right h => hrest _ (h.mono (Nat.le_succ _)))
    ((makes_innerSequence hg).bind fun right h => hrest _ h)

theorem makes_forRest {start : Nat} {init : Option Node} (hinit : AllShaped (most + 4) init.toList) :
    Makes depth (Node.Shaped (most + 5)) (forRest g start init) := by
  have hbody : ∀ {test update : Option Node}, AllShaped (most + 1) test.toList → AllShaped (most + 1) update.toList →
      Makes depth (Node.Shaped (most + 5)) (do
        let _ ← expect .closeParen
        let body ← g .statement
        finish start (.for init test update body)) := fun htest hupdate =>
    .expectKind fun _ => hg.statement.bind fun body h => .finish fun _ => .plain rfl trivial
      (.append (.append (.append hinit (htest.mono (by omega))) (hupdate.mono (by omega)))
        (.single (h.mono (by omega))))
  have hupdate : ∀ {test : Option Node}, AllShaped (most + 1) test.toList → Makes depth (Node.Shaped (most + 5)) (do
      let _ ← expect .semicolon
      let update ← if (← get).atMark .closeParen then pure none else some <$> innerSequence g
      let _ ← expect .closeParen
      let body ← g .statement
      finish start (.for init test update body)) := fun htest =>
    .expectKind fun _ => .look fun s => .ite (hbody htest .nil)
      (.present (makes_innerSequence hg) fun update h => hbody htest h)
  exact .expectKind fun _ => .look fun s => .ite (hupdate .nil)
    (.present (makes_innerSequence hg) fun test h => hupdate h)

theorem makes_forStatement : Makes depth (Node.Shaped (most + 5)) (forStatement g) := by
  refine .offset fun start => .expectReserved fun _ => .nextIf fun _ => .expectKind fun _ =>
    (makes_forInit hg).bind fun init hinit => .look fun s => ?_
  cases init with
  | none => exact makes_forRest hg .nil
  | some left => exact .ite (makes_forInOfRest hg (hinit left (by simp))) (makes_forRest hg hinit)

theorem makes_switchCase : Makes depth (Node.Shaped (most + 2)) (switchCase g) := by
  have hrest : ∀ start {test : Option Node}, AllShaped (most + 1) test.toList → Makes depth (Node.Shaped (most + 2)) (do
      let _ ← expect .colon
      let consequent ← statementList g fun s =>
        s.atMark .closeBrace || s.atReserved "case" || s.atReserved "default"
      finish start (.switchCase test consequent)) := fun start test htest =>
    .expectKind fun _ => (makes_statementList hg).bind fun consequent h => .finish fun _ => .plain rfl trivial
      (.append htest (h.mono (Nat.le_succ _)))
  exact .offset fun start => .nextIf fun _ => .ite (hrest start .nil) (.expectReserved fun _ =>
    .present (makes_innerSequence hg).allowIn fun test h => hrest start h)

theorem makes_switchStatement : Makes depth (Node.Shaped (most + 3)) (switchStatement g) :=
  .offset fun _ => .expectReserved fun _ => (makes_condition hg).bind fun _ h => .expectKind fun _ =>
    (Makes.list ((makes_switchCase hg).map fun _ h => .single h)).bind fun _ hcases =>
      .step proceeds_closeBrace fun _ => .pure (.plain rfl trivial (.cons (h.mono (Nat.le_succ _)) hcases))

theorem makes_catchClause : Makes depth (fun o => AllShaped (most + 2) o.toList) (catchClause g) := by
  refine .offset fun start => .nextIf fun b => ?_
  split
  · exact .pure .nil
  · exact .step (IsParseFunction.proceeds .catchParam hg.proceeds) fun param => (makes_block hg).bind fun body h =>
      .pure (.single (.plain rfl trivial (.single h)))

theorem makes_tryStatement : Makes depth (Node.Shaped (most + 3)) (tryStatement g) := by
  refine .offset fun start => .expectReserved fun _ => (makes_block hg).bind fun tried htried =>
    (makes_catchClause hg).bind fun handler hhandler => .nextIf fun b => .optional (makes_block hg)
      fun finalizer h => ?_
  dsimp only
  split
  · exact .look fun _ => .fail
  · exact .pure (.plain rfl trivial (.cons (htried.mono (Nat.le_succ _)) (.append hhandler (h.mono (Nat.le_succ _)))))

theorem makes_throwStatement : Makes depth (Node.Shaped (most + 2)) (throwStatement g) :=
  .offset fun _ => .expectReserved fun _ => (makes_innerSequence hg).bind fun _ h => .semicolon fun _ =>
    .finish fun _ => .plain rfl trivial (.single h)

omit hg in
theorem makes_jumpStatement {kind : NodeKind} (hk : kind.children = []) (ha : kind.Abbreviates) :
    Makes depth (Node.Shaped most) (jumpStatement kind) :=
  .offset fun _ => .next fun _ => .nextIf fun _ => .semicolon fun _ => .finish fun _ => .leaf hk ha

end

/-! ### All statements -/

variable (hg : ∀ depth, g.Shapes depth (room depth))
include hg

theorem makes_expressionStatement : Makes depth (Node.Shaped (room depth + 2)) (expressionStatement g) :=
  .offset fun _ => (makes_sequenceOf (makes_assignment hg)).bind fun _ h => .semicolon fun _ =>
    .finish fun _ => .plain rfl trivial (.single h)

theorem makes_reservedStatement {word : String} :
    Makes depth (Node.Shaped (room depth + 13)) (reservedStatement g word) := by
  unfold reservedStatement
  split
  · exact (makes_ifStatement (hg depth)).mono (by omega)
  · exact (makes_whileStatement (hg depth)).mono (by omega)
  · exact (makes_doStatement (hg depth)).mono (by omega)
  · exact (makes_forStatement (hg depth)).mono (by omega)
  · exact (makes_tryStatement (hg depth)).mono (by omega)
  · exact (makes_throwStatement (hg depth)).mono (by omega)
  · exact (makes_switchStatement (hg depth)).mono (by omega)
  · exact makes_jumpStatement rfl trivial
  · exact makes_jumpStatement rfl trivial
  · exact (makes_expressionStatement hg).mono (by omega)

theorem makes_statement : Makes depth (Node.Shaped (room depth)) (statement g) := by
  refine .nested (.look fun s => ?_)
  split
  · exact (makes_block (hg _)).mono (by omega)
  · exact makes_leaf (fun _ => rfl) fun _ => trivial
  · exact (makes_functionDeclaration (hg _)).mono (by omega)
  · exact (makes_classDeclaration (hg _)).mono (by omega)
  · exact (makes_returnStatement (hg _)).mono (by omega)
  · exact makes_reservedStatement hg
  · exact .ite ((makes_variableStatement (hg _)).mono (by omega)) (.ite
      ((makes_functionDeclaration (hg _)).mono (by omega)) ((makes_expressionStatement hg).mono (by omega)))

omit hg in
/-- **Whatever is parsed is shaped as its depth allows**, with any number of levels. -/
theorem parseLevel_shapes : ∀ levels depth, (parseLevel levels).Shapes depth (room depth)
  | 0, _ => ⟨parseLevel_proceeds 0, fun _ _ _ _ _ hrun => by cases hrun⟩
  | levels + 1, depth => by
    have hg := parseLevel_shapes levels
    refine ⟨parseLevel_proceeds (levels + 1), fun q => ?_⟩
    cases q with
    | assignment => exact makes_assignment hg
    | unary => exact makes_unary hg
    | binary least => exact makes_binary hg
    | leftHandSide => exact makes_leftHandSide (hg depth)
    | newExpression => exact makes_newExpression (hg depth)
    | method isAsync => exact makes_method (hg depth)
    | statement => exact makes_statement hg

end Typeahead
