/-
# Statements keep the height

Every statement ends at the height at which it starts, so a list of statements does, whatever the
statements that were skipped.

Key theorems: `level_statement`, `parseLevel_levels`.
-/
import Typeahead.Proofs.Braces.Expressions

namespace Typeahead

open Parse Grammar

variable {tokens : Array Token} {faults : List ParseError} {counts : Nat → Prop} {s : ParserState} {g : Grammar}

section

variable (hg : g.Levels tokens faults)
include hg

variable (hb : BalancedBraces tokens)
include hb

/-! ### Declarations -/

theorem level_expressionStatement : Level tokens faults counts (Node.Fine tokens faults) (expressionStatement g) s :=
  .offset ((level_sequenceOf fun _ => level_assignment hg hb).bind fun _ _ _ => .step .semicolon fun _ _ _ =>
    .finish fun _ h => .plain rfl (.single h))

theorem level_variableDeclarator : Level tokens faults counts (Node.Fine tokens faults) (variableDeclarator g) s := by
  have hinit : ∀ start target u, Level tokens faults counts (fun n => target.Fine tokens faults → n.Fine tokens faults)
      (do
        let init ← if ← nextMark .equals then some <$> g .assignment else pure none
        finish start (.variableDeclarator target init)) u := by
    intro start target u
    refine .step (.nextMark (by decide) (by decide)) fun b v _ => ?_
    split
    · exact (level_some (hg _ _ v)).bind fun _ _ _ => .finish fun _ hinit htarget =>
        .plain rfl (.append (.single htarget) (.optional hinit))
    · exact .finish fun _ htarget => .plain rfl (.append (.single htarget) .nil)
  have hname : Level tokens faults counts (Node.Fine tokens faults) (do
      let name ← bindingName
      let target ← finish s.offset (.identifier name)
      let init ← if ← nextMark .equals then some <$> g .assignment else pure none
      finish s.offset (.variableDeclarator target init)) s :=
    .step .bindingName fun _ _ _ => (Level.finish (R := Node.Fine tokens faults) fun _ => .leaf rfl rfl).bind
      fun target u _ => hinit _ target u
  refine .look ?_
  cases hk : s.kind with
  | punct mark =>
    cases mark
    case openBrace => exact (level_objectLiteral hg hb).bind fun target u _ => hinit _ target u
    case openBracket => exact (level_arrayLiteral hg).bind fun target u _ => hinit _ target u
    all_goals exact hname
  | _ => exact hname

/-- A declaration of variables that begins with a keyword. -/
theorem level_variableDeclaration (hk : s.NoBrace) :
    Level tokens faults counts (fun n => n.Fine tokens faults ∧ n.kind.isBraced = false) (variableDeclaration g) s := by
  refine .step (.next hk) fun _ _ _ => (level_variableDeclarator hg hb).bind fun _ _ _ =>
    (Level.collectUntil (P := Node.Fine tokens faults) fun t _ ht => ?_).bind fun _ _ _ =>
      .finish fun _ hothers hfirst => ⟨.plain rfl (.cons hfirst hothers), rfl⟩
  have hcomma := Level.noBrace_of_kind (ParserState.atMark_iff.1 (by simpa using ht)) (by simp) (by simp)
  exact .step (.next hcomma) fun _ _ _ => (level_variableDeclarator hg hb).bind fun _ _ _ =>
    .pure fun h _ hn => by cases hn; exact h

theorem level_variableStatement (hk : s.NoBrace) :
    Level tokens faults counts (Node.Fine tokens faults) (variableStatement g) s :=
  .offset ((level_variableDeclaration hg hb hk).bind fun _ _ _ => .step .semicolon fun _ _ _ =>
    .finish fun _ h => .plain h.2 fun _ hn => h.1.child hn)

theorem level_functionDeclaration : Level tokens faults counts (Node.Fine tokens faults) (functionDeclaration g) s :=
  .offset (.step (.nextIf fun h => Level.noBrace_of_atKeyword h) fun _ _ _ =>
    .step (.expectKind (by simp) (by simp)) fun _ _ _ => .step (.nextMark (by decide) (by decide)) fun _ _ _ =>
      .step .bindingName fun _ _ _ => (level_functionRest hg hb).bind fun _ _ _ => .pure fun h => .plain rfl h)

theorem level_classDeclaration : Level tokens faults counts (Node.Fine tokens faults) (classDeclaration g) s :=
  .offset ((level_classParts hg hb).bind fun _ _ _ => .pure fun h =>
    .of_own (fun _ h => by cases h) (fun r hr => by cases hr; exact h.body) h.pieces)

omit hb in
theorem level_returnStatement : Level tokens faults counts (Node.Fine tokens faults) (returnStatement g) s := by
  refine .offset (.step (.expectKind (by simp) (by simp)) fun _ u _ => .look ?_)
  dsimp only
  split
  · exact level_none.bind fun _ _ _ => .step .semicolon fun _ _ _ => .finish fun _ h => .plain rfl (.optional h)
  · exact (level_some (level_innerSequence hg)).bind fun _ _ _ => .step .semicolon fun _ _ _ =>
      .finish fun _ h => .plain rfl (.optional h)

/-! ### Control flow -/

omit hb in
theorem level_condition : Level tokens faults counts (Node.Fine tokens faults) (condition g) s :=
  .step (.expect (by decide) (by decide)) fun _ _ _ => (Level.withNoIn (level_innerSequence hg)).bind fun _ _ _ =>
    .step (.expect (by decide) (by decide)) fun _ _ _ => .pure id

omit hb in
theorem level_ifStatement : Level tokens faults counts (Node.Fine tokens faults) (ifStatement g) s := by
  refine .offset (.step .expectReserved fun _ _ _ => (level_condition hg).bind fun _ _ _ =>
    (hg _ _ _).bind fun _ _ _ => .step (.nextIf fun h => Level.noBrace_of_atReserved h) fun b w _ => ?_)
  split
  · exact (level_some (hg _ _ w)).bind fun _ _ _ => .finish fun _ halternate hconsequent htest =>
      .plain rfl (.cons htest (.cons hconsequent (.optional halternate)))
  · exact .finish fun _ hconsequent htest => .plain rfl (.cons htest (.cons hconsequent .nil))

omit hb in
theorem level_whileStatement : Level tokens faults counts (Node.Fine tokens faults) (whileStatement g) s :=
  .offset (.step .expectReserved fun _ _ _ => (level_condition hg).bind fun _ _ _ => (hg _ _ _).bind fun _ _ _ =>
    .finish fun _ hbody htest => .plain rfl (.cons htest (.single hbody)))

omit hb in
theorem level_doStatement : Level tokens faults counts (Node.Fine tokens faults) (doStatement g) s :=
  .offset (.step .expectReserved fun _ _ _ => (hg _ _ _).bind fun _ _ _ => .step .expectReserved fun _ _ _ =>
    (level_condition hg).bind fun _ _ _ => .step (.nextMark (by decide) (by decide)) fun _ _ _ =>
      .finish fun _ htest hbody => .plain rfl (.cons htest (.single hbody)))

omit hg hb in
theorem noBrace_of_beginsVariables (h : beginsVariables s = true) : s.NoBrace := by
  rw [beginsVariables, Bool.or_eq_true, Bool.or_eq_true, beginsLet, Bool.and_eq_true] at h
  exact h.elim (·.elim Level.noBrace_of_atKeyword Level.noBrace_of_atKeyword) fun h => Level.noBrace_of_atKeyword h.1

theorem level_forInit : Level tokens faults counts (fun o => ∀ n ∈ o, n.Fine tokens faults) (forInit g) s := by
  refine .look ?_
  split
  · exact level_none
  · refine (Level.withNoIn (P := Node.Fine tokens faults) ?_).bind fun _ _ _ =>
      .pure fun h _ hn => by cases hn; exact h
    split
    · rename_i h
      have hk : ParserState.NoBrace { s with noIn := true } := noBrace_of_beginsVariables (s := s) h
      exact (level_variableDeclaration hg hb hk).mono fun _ hn => hn.1
    · exact level_innerSequence hg

omit hb in
/-- The body of a loop after its head. -/
theorem level_loopBody {start : Nat} {kind : Node → NodeKind} {R : Node → Prop}
    (hk : ∀ body, body.Fine tokens faults → ∀ r, R ⟨r, kind body⟩) : Level tokens faults counts R (do
      let _ ← expect .closeParen
      let body ← g .statement
      finish start (kind body)) s :=
  .step (.expect (by decide) (by decide)) fun _ _ _ => (hg _ _ _).bind fun body _ _ =>
    .finish fun r hbody => hk body hbody r

omit hb in
theorem level_forInOfRest {start : Nat} {left : Node} (hk : s.NoBrace) : Level tokens faults counts
    (fun n => left.Fine tokens faults → n.Fine tokens faults) (forInOfRest g start left) s := by
  have hrest : ∀ right isOf u, Level tokens faults counts
      (fun n => right.Fine tokens faults → left.Fine tokens faults → n.Fine tokens faults) (do
        let _ ← expect .closeParen
        let body ← g .statement
        finish start (.forInOf left right body isOf)) u := by
    intro right isOf u
    have hbody : ∀ body, body.Fine tokens faults → ∀ r, right.Fine tokens faults → left.Fine tokens faults →
        Node.Fine tokens faults ⟨r, .forInOf left right body isOf⟩ := fun _ hbody _ hright hleft =>
      .plain rfl (.cons hleft (.cons hright (.single hbody)))
    exact level_loopBody hg hbody
  refine .step (.next hk) fun token u _ => ?_
  dsimp only
  split
  · exact (hg _ _ u).bind fun right v _ => hrest right _ v
  · exact (level_innerSequence hg).bind fun right v _ => hrest right _ v

omit hb in
theorem level_forRest {start : Nat} {init : Option Node} : Level tokens faults counts
    (fun n => (∀ m ∈ init, m.Fine tokens faults) → n.Fine tokens faults) (forRest g start init) s := by
  have hbody : ∀ (test update : Option Node) u, Level tokens faults counts
      (fun n => (∀ m ∈ update, m.Fine tokens faults) → (∀ m ∈ test, m.Fine tokens faults) →
        (∀ m ∈ init, m.Fine tokens faults) → n.Fine tokens faults) (do
        let _ ← expect .closeParen
        let body ← g .statement
        finish start (.for init test update body)) u := by
    intro test update u
    exact level_loopBody hg fun body hbody r hupdate htest hinit => .plain rfl
      (.append (.append (.append (.optional hinit) (.optional htest)) (.optional hupdate)) (.single hbody))
  have hupdate : ∀ (test : Option Node) u, Level tokens faults counts
      (fun n => (∀ m ∈ test, m.Fine tokens faults) → (∀ m ∈ init, m.Fine tokens faults) → n.Fine tokens faults) (do
        let _ ← expect .semicolon
        let update ← if (← get).atMark .closeParen then pure none else some <$> innerSequence g
        let _ ← expect .closeParen
        let body ← g .statement
        finish start (.for init test update body)) u := by
    intro test u
    refine .step (.expect (by decide) (by decide)) fun _ v _ => .look ?_
    split
    · exact level_none.bind fun update w _ => hbody test update w
    · exact (level_some (level_innerSequence hg)).bind fun update w _ => hbody test update w
  refine .step (.expect (by decide) (by decide)) fun _ v _ => .look ?_
  split
  · exact level_none.bind fun test w _ => hupdate test w
  · exact (level_some (level_innerSequence hg)).bind fun test w _ => hupdate test w

theorem level_forStatement : Level tokens faults counts (Node.Fine tokens faults) (forStatement g) s := by
  refine .offset (.step .expectReserved fun _ _ _ => .step (.nextIf fun h => Level.noBrace_of_atReserved h)
    fun _ _ _ => .step (.expect (by decide) (by decide)) fun _ _ _ => (level_forInit hg hb).bind fun init u _ =>
      .look ?_)
  cases init with
  | none => exact level_forRest hg
  | some left =>
    dsimp only
    split
    · rename_i h
      rw [Bool.or_eq_true] at h
      exact (level_forInOfRest hg (h.elim Level.noBrace_of_atKeyword Level.noBrace_of_atKeyword)).mono
        fun _ h hleft => h (hleft left rfl)
    · exact level_forRest hg

theorem level_switchCase : Level tokens faults counts (Node.Fine tokens faults) (switchCase g) s := by
  have hrest : ∀ start (test : Option Node) u, Level tokens faults counts
      (fun n => (∀ m ∈ test, m.Fine tokens faults) → n.Fine tokens faults) (do
        let _ ← expect .colon
        let consequent ← statementList g fun s =>
          s.atMark .closeBrace || s.atReserved "case" || s.atReserved "default"
        finish start (.switchCase test consequent)) u := fun _ _ _ =>
    .step (.expect (by decide) (by decide)) fun _ _ _ => (level_statementList hg hb fun t hk => by
      rw [ParserState.atMark_iff.2 hk]; rfl).bind fun _ _ _ => .finish fun _ hconsequent htest =>
        .plain rfl (.append (.optional htest) hconsequent)
  refine .offset (.step (.nextIf fun h => Level.noBrace_of_atReserved h) fun b u _ => ?_)
  split
  · exact level_none.bind fun test v _ => hrest _ test v
  · exact .step .expectReserved fun _ _ _ => (level_some (Level.withNoIn (level_innerSequence hg))).bind
      fun test v _ => hrest _ test v

/-- The cases of a switch stand between braces, but nothing is said of these. -/
theorem level_switchStatement : Level tokens faults counts (Node.Fine tokens faults) (switchStatement g) s :=
  .offset (.step .expectReserved fun _ _ _ => (level_condition hg).bind fun _ _ _ => .assume fun _ hc =>
    .braces hb closing_closeBrace (fun _ h => h) hc
      (.collectUntil (P := Node.Fine tokens faults) fun _ _ _ => level_some (level_switchCase hg hb))
      fun _ _ _ _ _ _ => .pure fun hcases _ hdiscriminant => .plain rfl (.cons hdiscriminant hcases))

theorem level_catchParam : Level tokens faults counts (fun _ => True) (catchParam g) s := by
  refine .step (.nextMark (by decide) (by decide)) fun b u _ => ?_
  split
  · exact .pure trivial
  · have hclose : ∀ (param : Option String) v, Level tokens faults counts (fun _ => True) (do
        let _ ← expect .closeParen
        return param) v := fun _ _ => .step (.expect (by decide) (by decide)) fun _ _ _ => .pure trivial
    have hname : Level tokens faults counts (fun _ => True) (do
        let param ← some <$> bindingName
        let _ ← expect .closeParen
        return param) u := .step (.map .bindingName fun _ _ => trivial) fun param v _ => hclose param v
    refine .look ?_
    cases hk : u.kind with
    | punct mark =>
      cases mark
      case openBrace => exact (level_objectLiteral hg hb).bind fun _ v _ => (hclose none v).mono fun _ _ _ => trivial
      case openBracket => exact (level_arrayLiteral hg).bind fun _ v _ => (hclose none v).mono fun _ _ _ => trivial
      all_goals exact hname
    | _ => exact hname

theorem level_catchClause : Level tokens faults counts (fun o => ∀ n ∈ o, n.Fine tokens faults) (catchClause g) s := by
  refine .offset (.step (.nextIf fun h => Level.noBrace_of_atReserved h) fun b u _ => ?_)
  split
  · exact level_none
  · exact .step (level_catchParam hg hb) fun _ _ _ => (level_block hg hb).bind fun _ _ _ => .pure fun hbody _ hn => by
      cases hn
      exact .plain rfl (.single hbody)

theorem level_tryStatement : Level tokens faults counts (Node.Fine tokens faults) (tryStatement g) s := by
  refine .offset (.step .expectReserved fun _ _ _ => (level_block hg hb).bind fun tried _ _ =>
    (level_catchClause hg hb).bind fun handler _ _ => .step (.nextIf fun h => Level.noBrace_of_atReserved h)
      fun b u _ => ?_)
  have hparts : ∀ (finalizer : Option Node) r, (∀ n ∈ finalizer, n.Fine tokens faults) →
      (∀ n ∈ handler, n.Fine tokens faults) → tried.Fine tokens faults →
      Node.Fine tokens faults ⟨r, .try tried handler finalizer⟩ := fun _ _ hfinalizer hhandler htried =>
    .plain rfl (.cons htried (.append (.optional hhandler) (.optional hfinalizer)))
  split
  · refine (level_some (level_block hg hb)).bind fun finalizer v hrun => ?_
    obtain ⟨last, -, rfl⟩ := map_ok.1 hrun
    exact .pure (hparts (some last) _)
  · refine level_none.bind fun finalizer v hrun => ?_
    cases hrun
    cases handler with
    | none => exact .look (.fail rfl)
    | some last => exact .pure (hparts none _)

omit hb in
theorem level_throwStatement : Level tokens faults counts (Node.Fine tokens faults) (throwStatement g) s :=
  .offset (.step .expectReserved fun _ _ _ => (level_innerSequence hg).bind fun _ _ _ => .step .semicolon fun _ _ _ =>
    .finish fun _ h => .plain rfl (.single h))

omit hg hb in
theorem level_jumpStatement {kind : NodeKind} (hk : s.NoBrace) (hbraced : kind.isBraced = false)
    (hchildren : kind.children = []) : Level tokens faults counts (Node.Fine tokens faults) (jumpStatement kind) s := by
  refine .offset (.step (.next hk) fun _ _ _ => .step (.nextIf fun h => ?_) fun _ _ _ => .step .semicolon fun _ _ _ =>
    .finish fun _ => .leaf hbraced hchildren)
  rw [Bool.and_eq_true] at h
  exact Level.noBrace_of_atBindingName h.1

/-! ### All statements -/

theorem level_reservedStatement {word : String} (hk : s.NoBrace) :
    Level tokens faults counts (Node.Fine tokens faults) (reservedStatement g word) s := by
  unfold reservedStatement
  split
  · exact level_ifStatement hg
  · exact level_whileStatement hg
  · exact level_doStatement hg
  · exact level_forStatement hg hb
  · exact level_tryStatement hg hb
  · exact level_throwStatement hg
  · exact level_switchStatement hg hb
  · exact level_jumpStatement hk rfl rfl
  · exact level_jumpStatement hk rfl rfl
  · exact level_expressionStatement hg hb

theorem level_statement : Level tokens faults counts (Node.Fine tokens faults) (statement g) s := by
  refine .nested ?_
  generalize ({ s with depth := s.depth + 1 } : ParserState) = s
  have hname : ∀ kind : TokenKind, Level tokens faults counts (Node.Fine tokens faults)
      (if beginsVariables s then variableStatement g
      else if kind == .keyword .asyncWord && s.following.kind == .keyword .functionWord &&
          !s.following.afterLineBreak then functionDeclaration g
      else expressionStatement g) s := by
    intro kind
    split
    · rename_i h
      exact level_variableStatement hg hb (noBrace_of_beginsVariables h)
    · split
      · exact level_functionDeclaration hg hb
      · exact level_expressionStatement hg hb
  refine .look ?_
  cases hk : s.kind with
  | punct mark =>
    cases mark
    case openBrace => exact level_block hg hb
    case semicolon => exact level_leaf (Level.noBrace_of_kind hk (by simp) (by simp)) (fun _ => rfl) fun _ => rfl
    all_goals exact hname _
  | keyword word =>
    cases word
    case functionWord => exact level_functionDeclaration hg hb
    case classWord => exact level_classDeclaration hg hb
    case returnWord => exact level_returnStatement hg
    all_goals exact hname _
  | reserved => exact level_reservedStatement hg hb (Level.noBrace_of_kind hk (by simp) (by simp))
  | _ => exact hname _

end

/-- **Whatever is parsed keeps the height**, with any number of levels. -/
theorem parseLevel_levels (hb : BalancedBraces tokens) : ∀ levels, (parseLevel levels).Levels tokens faults
  | 0, _, _, _ => .of_token (fun _ _ hrun => by cases hrun) fun _ _ hrun => by cases hrun; exact ⟨rfl, rfl⟩
  | levels + 1, q, counts, s => by
    have hg : (parseLevel levels).Levels tokens faults := parseLevel_levels hb levels
    cases q with
    | assignment => exact level_assignment hg hb
    | unary => exact level_unary hg hb
    | binary precedence => exact level_binary hg hb
    | leftHandSide => exact level_leftHandSide hg hb
    | newExpression => exact level_newExpression hg hb
    | method isAsync => exact level_method hg hb
    | statement => exact level_statement hg hb

end Typeahead
