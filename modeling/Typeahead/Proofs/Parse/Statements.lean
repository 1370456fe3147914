/-
# Statements are built

Statements and declarations are built from the steps of the grammar, wherever they start, and
so is every production.

Key theorems: `begins_statement`, `begins_produce`, `parseLevel_proceeds`, `parseLevel_reads`.
-/
import Typeahead.Proofs.Parse.Expressions

namespace Typeahead

open Parse Grammar Built

variable {last : Nat} {s : ParserState}

/-! ### Declarations -/

theorem begins_expressionStatement : Begins last s (Node.Open last) expressionStatement :=
  .offset (.bind (begins_sequenceOf fun _ => begins_assignment)
    (fun _ _ => step semicolon fun _ _ => finish ..)
    (.semicolon (.finish fun _ _ h => .of_child (by simp [NodeKind.children]) h)))

theorem built_variableDeclarator : Built last s (Node.Open last) variableDeclarator := by
  have hinit : ∀ (target : Node) t, Built last t (Node.Open last) fun g => nextMark .equals >>= fun b =>
      if b then some <$> g .assignment >>= fun init => Parse.finish s.offset (.variableDeclarator target init)
      else pure none >>= fun init => Parse.finish s.offset (.variableDeclarator target init) :=
    fun target t => step (nextMark (by simp)) fun _ _ => iteBind (fun _ => .mapSome (.call _))
      (fun _ => .pure _) (fun _ _ => finish ..) (.finish fun init _ ⟨n, hn, h⟩ =>
        .of_child (List.mem_cons_of_mem _ hn) h)
  have hname : Built last s (Node.Open last) fun g => bindingName >>= fun name =>
      Parse.finish s.offset (.identifier name) >>= fun target => nextMark .equals >>= fun b =>
        if b then some <$> g .assignment >>= fun init => Parse.finish s.offset (.variableDeclarator target init)
        else pure none >>= fun init => Parse.finish s.offset (.variableDeclarator target init) :=
    step bindingName fun _ _ => step (finish ..) fun _ _ => hinit ..
  refine look (fun _ _ _ _ _ => rfl) ?_
  cases hk : s.kind with
  | punct mark =>
    cases mark
    case openBrace => exact step begins_objectLiteral.built hinit
    case openBracket => exact step begins_arrayLiteral.built hinit
    all_goals exact hname
  | _ => exact hname

theorem built_moreDeclarators : Built last s (AnyOpen last) moreDeclarators :=
  nodes (fun _ _ h => congrArg not (h.atMark _)) fun _ ht =>
    step (read (ParserState.not_isStuck_of_atMark (by simpa using ht) (by simp))) fun _ _ =>
      someBind built_variableDeclarator

theorem moreDeclarators_of_end {g : Grammar} {t : ParserState} (h : t.kind = .endOfInput) :
    moreDeclarators g t = .ok [] t := by
  rw [moreDeclarators, Parse.collectUntil, get_run]
  cases t.rounds with
  | zero => rfl
  | succ rounds => rw [Parse.collect, get_run, if_pos (by simp [t.atMark_of_end h])]; rfl

theorem not_isStuck_of_beginsVariables (h : beginsVariables s = true) : ¬ s.IsStuck := by
  rw [beginsVariables, Bool.or_eq_true, Bool.or_eq_true] at h
  rcases h with (h | h) | h
  · exact ParserState.not_isStuck_of_atKeyword h
  · exact ParserState.not_isStuck_of_atKeyword h
  · exact ParserState.not_isStuck_of_atKeyword (Bool.and_eq_true_iff.1 h).1

theorem begins_variableDeclaration (h : beginsVariables s = true) :
    Begins last s (fun n => AnyOpen last n.kind.children) variableDeclaration := by
  refine .step (.read (not_isStuck_of_beginsVariables h)) fun token _ => .bind built_variableDeclarator
    (fun first _ => .bind built_moreDeclarators (fun _ _ => finish ..) ?_) ?_
  · intro g _ others t u b ⟨n, hn, hopen⟩ _ _ _ hrun
    cases hrun
    exact ⟨n, List.mem_cons_of_mem _ hn, hopen⟩
  · intro g _ first t u b hfirst _ ht _ hrun
    cases (bind_of_ok (moreDeclarators_of_end ht)).symm.trans hrun
    exact ⟨first, List.mem_cons_self, hfirst⟩

theorem begins_variableStatement (h : beginsVariables s = true) :
    Begins last s (Node.Open last) variableStatement :=
  .offset (.bind (begins_variableDeclaration h) (fun _ _ => step semicolon fun _ _ => finish ..)
    (.semicolon (.finish fun _ _ h => .of_children h)))

theorem begins_functionDeclaration : Begins last s (Node.Open last) functionDeclaration :=
  .offset (.after (nextIf (fun _ _ _ _ _ => rfl) ParserState.not_isStuck_of_atKeyword) (fun _ _ =>
    .step (.expectKind (by simp) (by simp)) fun _ _ => step (nextMark (by simp)) fun _ _ =>
      step bindingName fun _ _ => .bind (begins_functionRest _ _).built (fun _ _ => .pure _)
        (.pure fun _ h => .of_children h)) .closed)

theorem begins_classDeclaration : Begins last s (Node.Open last) classDeclaration :=
  .offset (.bind (begins_classParts _) (fun _ _ => .pure _) (.pure fun _ h => by
    rcases h with h | h
    · exact .of_children h
    · exact .of_classBody rfl h))

/-! ### Control flow -/

theorem begins_returnStatement : Begins last s (Node.Open last) returnStatement :=
  .offset (.step (.expectKind (by simp) (by simp)) fun _ _ => look (fun _ _ _ _ _ => rfl)
    (iteBind (fun _ => .pure _) (fun _ => .mapSome built_innerSequence)
      (fun _ _ => step semicolon fun _ _ => finish ..)
      (.semicolon (.finish fun _ _ h => .of_children h))))

theorem built_condition {O : Node → Prop} : Built last s O condition :=
  step (expect (by simp)) fun _ _ => .bind (.withNoIn _ built_innerSequence)
    (fun _ _ => step (expect (by simp)) fun _ _ => .pure _) .expect

theorem begins_ifStatement : Begins last s (Node.Open last) ifStatement := by
  refine .offset (.step .expectReserved fun _ _ => step built_condition fun test _ => .bind (.call _)
    (fun consequent _ => step (nextIf (fun _ _ _ _ _ => rfl) ParserState.not_isStuck_of_atReserved)
      fun _ _ => iteBind (fun _ => .mapSome (.call _)) (fun _ => .pure _) (fun _ _ => finish ..) ?_) ?_)
  · exact .finish fun _ _ ⟨n, hn, h⟩ => .of_child (List.mem_cons_of_mem _ (List.mem_cons_of_mem _ hn)) h
  · refine .nextIf (fun _ h => ParserState.atReserved_of_end h _) ?_
    simp only [Bool.false_eq_true, ↓reduceIte, pure_bind]
    exact .finish fun _ _ h => .of_child (by simp [NodeKind.children]) h

theorem begins_whileStatement : Begins last s (Node.Open last) whileStatement :=
  .offset (.step .expectReserved fun _ _ => step built_condition fun _ _ => .bind (.call _)
    (fun _ _ => finish ..) (.finish fun _ _ h => .of_child (by simp [NodeKind.children]) h))

theorem begins_doStatement : Begins last s (Node.Open last) doStatement :=
  .offset (.step .expectReserved fun _ _ => .bind (.call _) (fun _ _ => step expectReserved fun _ _ =>
    step built_condition fun _ _ => step (nextMark (by simp)) fun _ _ => finish ..) .expectReserved)

theorem built_forInit : Built last s (fun o => AnyOpen last o.toList) forInit := by
  refine look (fun _ _ _ _ _ => rfl) (ite (fun _ => .pure _) fun _ => someBind (.withNoIn _
    (ite (fun h => ?_) fun _ => built_innerSequence)))
  have hopen : ∀ n : Node, AnyOpen last n.kind.children → n.Open last := fun n hn => by
    cases n
    exact .of_children hn
  exact .weaken hopen (Begins.built (begins_variableDeclaration h))

theorem built_forInOfRest (start : Nat) (left : Node) (hs : ¬ s.IsStuck) :
    Built last s (Node.Open last) fun g => forInOfRest g start left :=
  step (read hs) fun _ _ => iteBind (fun _ => .call _) (fun _ => built_innerSequence)
    (fun _ _ => step (expect (by simp)) fun _ _ => .bind (.call _) (fun _ _ => finish ..)
      (.finish fun _ _ h => .of_child (by simp [NodeKind.children]) h)) .expect

theorem built_forRest (start : Nat) (init : Option Node) :
    Built last s (Node.Open last) fun g => forRest g start init := by
  refine step (expect (by simp)) fun _ _ => look (fun _ _ _ _ _ => rfl) (iteBind (fun _ => .pure _)
    (fun _ => .mapSome built_innerSequence) (fun test _ => step (expect (by simp)) fun _ _ =>
      look (fun _ _ _ _ _ => rfl) (iteBind (fun _ => .pure _) (fun _ => .mapSome built_innerSequence)
        (fun update _ => step (expect (by simp)) fun _ _ => .bind (.call _) (fun _ _ => finish ..) ?_)
        .expect)) .expect)
  exact .finish fun _ _ h => .of_child (by simp [NodeKind.children]) h

theorem forRest_of_end {g : Grammar} {start : Nat} {init : Option Node} {t : ParserState}
    (h : t.kind = .endOfInput) : ∃ e u, forRest g start init t = .error e u :=
  ⟨_, _, bind_of_error (by rw [Parse.expect, Parse.expectKind, h]; rfl)⟩

theorem begins_forStatement : Begins last s (Node.Open last) forStatement := by
  refine .offset (.step .expectReserved fun _ _ =>
    step (nextIf (fun _ _ _ _ _ => rfl) ParserState.not_isStuck_of_atReserved) fun _ _ =>
      step (expect (by simp)) fun _ _ => .bind built_forInit (fun init t =>
        look (fun _ _ _ _ _ => rfl) ?_) (.look fun t ht => .fails fun init g u hu => ?_))
  · cases init with
    | none => exact built_forRest ..
    | some left =>
      refine ite (fun h => built_forInOfRest _ _ ?_) fun _ => built_forRest ..
      rcases Bool.or_eq_true_iff.1 h with h | h <;> exact ParserState.not_isStuck_of_atKeyword h
  · cases init with
    | none => exact forRest_of_end hu
    | some left =>
      have hin : t.atKeyword .inWord = false := by rw [ParserState.atKeyword, ht]; rfl
      have hof : t.atKeyword .ofWord = false := by rw [ParserState.atKeyword, ht]; rfl
      simp only [hin, hof, Bool.or_self, Bool.false_eq_true, ↓reduceIte]
      exact forRest_of_end hu

theorem begins_switchCase : Begins last s (fun _ => True) switchCase := by
  have hrest : ∀ (test : Option Node) t, Begins last t (fun _ => True) fun g =>
      Parse.expect .colon >>= fun _ => statementList g (fun s =>
        s.atMark .closeBrace || s.atReserved "case" || s.atReserved "default") >>= fun consequent =>
          Parse.finish s.offset (.switchCase test consequent) := fun test t =>
    .step (.expect (by simp)) fun _ _ => .bind (built_statementList fun t u h => by
      simp only [h.atMark, ParserState.atReserved, h.current]) (fun _ _ => finish ..) .any
  refine .offset (.after (nextIf (fun _ _ _ _ _ => rfl) ParserState.not_isStuck_of_atReserved) (fun _ _ =>
    .ite (fun _ => .after (.pure _) (fun _ _ => hrest ..) .closed) fun _ => .step .expectReserved fun _ _ => ?_)
    .closed)
  exact .bind (.mapSome (.withNoIn _ built_innerSequence)) (fun test t => (hrest test t).built) .any

theorem begins_switchStatement : Begins last s (Node.Open last) switchStatement :=
  .offset (.step .expectReserved fun _ _ => step built_condition fun _ _ => step (expect (by simp))
    fun _ _ => .bind (loop (fun t u h => by rw [h.atMark, ParserState.atEnd, ParserState.atEnd, h.1])
      fun _ _ => map begins_switchCase.built fun _ _ => trivial)
      (fun _ _ => .bind .closeBrace (fun _ _ => .pure _) (.pure fun _ h => .of_stop h))
      (.closeBrace fun _ _ h => .of_stop h))

theorem built_catchParam {O : Option String → Prop} : Built last s O catchParam := by
  have hrest : ∀ (param : Option String) t, Built last t O fun _ =>
      Parse.expect .closeParen >>= fun _ => pure param := fun _ _ =>
    step (expect (by simp)) fun _ _ => .pure _
  have hname : ∀ t, Built last t O fun _ => some <$> bindingName >>= fun param =>
      Parse.expect .closeParen >>= fun _ => pure param := fun _ =>
    step (map bindingName fun _ h => h) hrest
  refine step (nextMark (by simp)) fun _ t => ite (fun _ => .pure _) fun _ =>
    look (fun _ _ _ _ _ => rfl) ?_
  cases t.kind with
  | punct mark =>
    cases mark
    case openBrace => exact step begins_objectLiteral.built fun _ _ => step (.pure _) hrest
    case openBracket => exact step begins_arrayLiteral.built fun _ _ => step (.pure _) hrest
    all_goals exact hname t
  | _ => exact hname t

theorem built_catchClause : Built last s (fun o => AnyOpen last o.toList) catchClause :=
  offset (step (nextIf (fun _ _ _ _ _ => rfl) ParserState.not_isStuck_of_atReserved) fun _ _ =>
    ite (fun _ => .pure _) fun _ => step built_catchParam fun _ _ => .bind begins_block.built
      (fun _ _ => .pure _) (.pure fun _ h => ⟨_, List.mem_singleton_self _, .of_child List.mem_cons_self h⟩))

theorem catchClause_of_end {g : Grammar} {t : ParserState} (h : t.kind = .endOfInput) :
    catchClause g t = .ok none t :=
  (bind_of_ok (nextIf_of_false (ParserState.atReserved_of_end h _))).trans rfl

theorem begins_tryStatement : Begins last s (Node.Open last) tryStatement := by
  refine .offset (.step .expectReserved fun _ _ => .bind begins_block.built (fun tried _ =>
    .bind built_catchClause (fun handler _ => step (nextIf (fun _ _ _ _ _ => rfl)
      ParserState.not_isStuck_of_atReserved) fun _ _ => iteBind (fun _ => .mapSome begins_block.built)
        (fun _ => .pure _) (fun finalizer _ => ?_) ?_) ?_) ?_)
  · dsimp only
    cases finalizer.or handler with
    | none => exact look (fun _ _ _ _ _ => rfl) (.fail _ rfl)
    | some _ => exact .pure _
  · intro g _ finalizer t u b ⟨n, hn, h⟩ _ _ _ hrun
    obtain rfl : finalizer = some n := by simpa using hn
    cases hrun
    exact .of_child (by simp [NodeKind.children]) h
  · refine .nextIf (fun _ h => ParserState.atReserved_of_end h _) ?_
    intro g _ handler t u b ⟨n, hn, h⟩ _ _ _ hrun
    obtain rfl : handler = some n := by simpa using hn
    cases hrun
    exact .of_child (by simp [NodeKind.children]) h
  · exact .fails fun tried g t ht => ⟨_, _, (bind_of_ok (catchClause_of_end ht)).trans
      ((bind_of_ok (nextIf_of_false (ParserState.atReserved_of_end ht _))).trans rfl)⟩

theorem begins_throwStatement : Begins last s (Node.Open last) throwStatement :=
  .offset (.step .expectReserved fun _ _ => .bind built_innerSequence
    (fun _ _ => step semicolon fun _ _ => finish ..)
    (.semicolon (.finish fun _ _ h => .of_child (by simp [NodeKind.children]) h)))

theorem begins_jumpStatement (kind : NodeKind) (hs : ¬ s.IsStuck) :
    Begins last s (Node.Open last) fun _ => jumpStatement kind :=
  .offset (.step (.read hs) fun _ _ => step (nextIf (fun _ _ _ _ _ => rfl) fun h =>
    not_isStuck_of_atBindingName (Bool.and_eq_true_iff.1 h).1) fun _ _ =>
      step semicolon fun _ _ => finish ..)

theorem begins_reservedStatement (word : String) (hs : ¬ s.IsStuck) :
    Begins last s (Node.Open last) fun g => reservedStatement g word := by
  by_cases hword : word ∈ ["if", "while", "do", "for", "try", "throw", "switch", "break", "continue"]
  · simp only [List.mem_cons, List.not_mem_nil, or_false] at hword
    rcases hword with rfl | rfl | rfl | rfl | rfl | rfl | rfl | rfl | rfl
    · exact begins_ifStatement
    · exact begins_whileStatement
    · exact begins_doStatement
    · exact begins_forStatement
    · exact begins_tryStatement
    · exact begins_throwStatement
    · exact begins_switchStatement
    · exact begins_jumpStatement _ hs
    · exact begins_jumpStatement _ hs
  · refine .same (fun g t _ => ?_) begins_expressionStatement
    rw [reservedStatement.eq_def]
    split <;> first | rfl | simp at hword

theorem begins_statement : Begins last s (Node.Open last) statement := by
  have hother : ∀ kind : TokenKind, Begins last s (Node.Open last) fun g =>
      if beginsVariables s then variableStatement g
      else if kind == .keyword .asyncWord && s.following.kind == .keyword .functionWord &&
          !s.following.afterLineBreak then
        functionDeclaration g
      else expressionStatement g := fun kind =>
    .ite begins_variableStatement fun _ => .ite (fun _ => begins_functionDeclaration)
      fun _ => begins_expressionStatement
  refine .nested (.look (fun _ _ _ _ _ => rfl) ?_)
  cases hk : s.kind with
  | punct mark =>
    cases mark
    case openBrace => exact begins_block
    case semicolon => exact begins_leaf _ (ParserState.not_isStuck hk (by simp) (by simp))
    all_goals exact hother _
  | keyword word =>
    cases word
    case functionWord => exact begins_functionDeclaration
    case classWord => exact begins_classDeclaration
    case returnWord => exact begins_returnStatement
    all_goals exact hother _
  | reserved => exact begins_reservedStatement _ (ParserState.not_isStuck hk (by simp) (by simp))
  | _ => exact hother _

/-! ### All productions -/

/-- **Every production is built and reads a token first.** -/
theorem begins_produce (q : Production) (s : ParserState) :
    Begins last s (Node.Open last) fun g => produce g q := by
  cases q with
  | assignment => exact begins_assignment
  | unary => exact begins_unary
  | binary least => exact begins_binary least
  | leftHandSide => exact begins_leftHandSide
  | newExpression => exact begins_newExpression
  | method isAsync => exact begins_method isAsync
  | statement => exact begins_statement

/-- **Productions lead on**, whatever the number of levels. -/
theorem parseLevel_proceeds : ∀ levels, (parseLevel levels).Proceeds
  | 0, _, s => ⟨fun h => (by cases h), fun h => by cases h; exact .rfl s⟩
  | levels + 1, q, s =>
    (begins_produce q s : Begins 0 _ _ _).built.proceeds (parseLevel_proceeds levels) s (.rfl s)

/-- **Productions read**, whatever the number of levels. -/
theorem parseLevel_reads : ∀ levels, (parseLevel levels).Reads
  | 0, _, _, _ => fun _ _ h => by cases h
  | levels + 1, q, s, hs =>
    (begins_produce q s : Begins 0 _ _ _).reads _ (parseLevel_proceeds levels) (parseLevel_reads levels) s
      (.rfl s) hs

end Typeahead
