/-
# Every parse leaves the state intact

Whatever function of the grammar is run, from whatever state and however it ends, the state it
leaves comes after the one it began in: the depth and both flags are as before, the tokens are
the same, the place is no earlier, and outside of recovery no fault is added. The functions
that are built have it from that; those that are built only where a certain token stands have it
wherever they start, as each of their steps does.

Key definition: `IsParseFunction`.
Key theorems: `IsParseFunction.proceeds`, `proceeds_program`, `document_intact`, `parses_intact`.
-/
import Typeahead.Proofs.Parse.Statements

namespace Typeahead

open Parse Grammar

variable {α : Type} {s t : ParserState} {g : Grammar}

/-- The functions of the grammar, each over a grammar for what it calls on. -/
inductive IsParseFunction : {α : Type} → (Grammar → Parse α) → Prop where
  -- single tokens
  | nextIf (p : ParserState → Bool) : IsParseFunction fun _ => nextIf p
  | expectKind (kind : TokenKind) : IsParseFunction fun _ => expectKind kind
  | expectReserved (word : String) : IsParseFunction fun _ => expectReserved word
  | bindingName : IsParseFunction fun _ => bindingName
  | anyWord : IsParseFunction fun _ => anyWord
  | semicolon : IsParseFunction fun _ => semicolon
  -- what stands between brackets
  | sequenceOf {x : Grammar → Parse Node} : IsParseFunction x → IsParseFunction fun g => sequenceOf (x g)
  | innerSequence : IsParseFunction innerSequence
  | memberName : IsParseFunction fun _ => memberName
  | computedKey : IsParseFunction computedKey
  | separator (close : Punctuator) : IsParseFunction fun _ => separator close
  | spreadOrAssignment : IsParseFunction spreadOrAssignment
  | arguments : IsParseFunction arguments
  | arrayLiteral : IsParseFunction arrayLiteral
  | propertyKey : IsParseFunction propertyKey
  | shorthandValue (key : Node) : IsParseFunction fun g => shorthandValue g key
  | propertyFrom (start : Nat) (isAsync : Bool) : IsParseFunction fun g => propertyFrom g start isAsync
  | objectMember : IsParseFunction objectMember
  | objectLiteral : IsParseFunction objectLiteral
  | parameterFrom (start : Nat) (isRest : Bool) : IsParseFunction fun g => parameterFrom g start isRest
  | parametersFrom (rounds : Nat) : IsParseFunction fun g => parametersFrom g rounds
  | parameterList : IsParseFunction parameterList
  | closeBrace : IsParseFunction fun _ => closeBrace
  | listedStatement : IsParseFunction listedStatement
  | statementList (done : ParserState → Bool) : IsParseFunction fun g => statementList g done
  | block : IsParseFunction block
  | functionRest (name : Option String) (isAsync : Bool) : IsParseFunction fun g => functionRest g name isAsync
  | method (isAsync : Bool) : IsParseFunction fun g => method g isAsync
  -- classes
  | elementName : IsParseFunction elementName
  | accessorKind (isAsync isGenerator : Bool) : IsParseFunction fun _ => accessorKind isAsync isGenerator
  | elementFrom (start : Nat) (isStatic isAsync isGenerator : Bool) :
      IsParseFunction fun g => elementFrom g start isStatic isAsync isGenerator
  | elementAfterAccess (start : Nat) : IsParseFunction fun g => elementAfterAccess g start
  | classElement : IsParseFunction classElement
  | listedElement : IsParseFunction listedElement
  | classParts (requireName : Bool) : IsParseFunction fun g => classParts g requireName
  -- expressions
  | arrowParameters? : IsParseFunction arrowParameters?
  | arrowRest (start : Nat) (params : List Node) (isAsync : Bool) :
      IsParseFunction fun g => arrowRest g start params isAsync
  | singleParameterArrow (start : Nat) (isAsync : Bool) :
      IsParseFunction fun g => singleParameterArrow g start isAsync
  | parenthesizedOrArrow (start : Nat) : IsParseFunction fun g => parenthesizedOrArrow g start
  | functionExpression (start : Nat) (isAsync : Bool) :
      IsParseFunction fun g => functionExpression g start isAsync
  | asyncArrowParameters? : IsParseFunction asyncArrowParameters?
  | asyncPrimary : IsParseFunction asyncPrimary
  | namePrimary : IsParseFunction namePrimary
  | leaf (kind : Token → NodeKind) : IsParseFunction fun _ => leaf kind
  | primary : IsParseFunction primary
  | newCalleeTail (start rounds : Nat) (callee : Node) :
      IsParseFunction fun g => newCalleeTail g start rounds callee
  | newExpression : IsParseFunction newExpression
  | suffixes (start rounds : Nat) (expression : Node) :
      IsParseFunction fun g => suffixes g start rounds expression
  | leftHandSide : IsParseFunction leftHandSide
  | postfixExpression (start : Nat) : IsParseFunction fun g => postfixExpression g start
  | unary : IsParseFunction unary
  | binaryTail (start least rounds : Nat) (left : Node) :
      IsParseFunction fun g => binaryTail g start least rounds left
  | binary (least : Nat) : IsParseFunction fun g => binary g least
  | conditional : IsParseFunction conditional
  | assignment : IsParseFunction assignment
  -- statements
  | expressionStatement : IsParseFunction expressionStatement
  | variableDeclarator : IsParseFunction variableDeclarator
  | moreDeclarators : IsParseFunction moreDeclarators
  | variableDeclaration : IsParseFunction variableDeclaration
  | variableStatement : IsParseFunction variableStatement
  | functionDeclaration : IsParseFunction functionDeclaration
  | classDeclaration : IsParseFunction classDeclaration
  | returnStatement : IsParseFunction returnStatement
  | condition : IsParseFunction condition
  | ifStatement : IsParseFunction ifStatement
  | whileStatement : IsParseFunction whileStatement
  | doStatement : IsParseFunction doStatement
  | forInit : IsParseFunction forInit
  | forInOfRest (start : Nat) (left : Node) : IsParseFunction fun g => forInOfRest g start left
  | forRest (start : Nat) (init : Option Node) : IsParseFunction fun g => forRest g start init
  | forStatement : IsParseFunction forStatement
  | switchCase : IsParseFunction switchCase
  | switchStatement : IsParseFunction switchStatement
  | catchParam : IsParseFunction catchParam
  | catchClause : IsParseFunction catchClause
  | tryStatement : IsParseFunction tryStatement
  | throwStatement : IsParseFunction throwStatement
  | jumpStatement (kind : NodeKind) : IsParseFunction fun _ => jumpStatement kind
  | reservedStatement (word : String) : IsParseFunction fun g => reservedStatement g word
  | statement : IsParseFunction statement

/-! ### Functions that start anywhere -/

/-- What is built leads on over a grammar that does. -/
theorem Grammar.Proceeds.built {O : α → Prop} {x : Grammar → Parse α} (hg : g.Proceeds)
    (h : Built 0 s O x) : Typeahead.Proceeds (x g) s :=
  h.proceeds hg s (.rfl s)

/-- The parse is taken back to where it began. -/
theorem ParserState.Follows.back (h : s.Follows t) : s.Follows { t with stream := s.stream } :=
  { h with
    tokens := .refl _
    position := Nat.le_refl _
    bound := Nat.le_max_left .. }

theorem Proceeds.sequenceOf {x : Parse Node} (hx : ∀ s, Proceeds x s) (s : ParserState) :
    Proceeds (sequenceOf x) s := by
  refine .look ((hx s).bind fun first u _ => .look ?_)
  split
  · exact .pure _
  · exact (Proceeds.look (.collect (fun v => Proceeds.next.bind fun _ w _ => (hx w).bind fun _ _ _ => .pure _)
      _ _)).bind fun _ _ _ => .look (.pure _)

theorem proceeds_leaf (kind : Token → NodeKind) (s : ParserState) : Proceeds (leaf kind) s :=
  Proceeds.next.bind fun _ _ _ => .look (.pure _)

theorem proceeds_jumpStatement (kind : NodeKind) (s : ParserState) : Proceeds (jumpStatement kind) s :=
  .look (Proceeds.next.bind fun _ _ _ => (Proceeds.nextIf _).bind fun _ u _ =>
    ((Built.semicolon : Built 0 u (fun _ => True) _).proceeds (parseLevel_proceeds 0) u (.rfl u)).bind
      fun _ _ _ => .look (.pure _))

namespace Grammar.Proceeds

variable (hg : g.Proceeds)
include hg

theorem arrowRest (start : Nat) (params : List Node) (isAsync : Bool) (s : ParserState) :
    Typeahead.Proceeds (arrowRest g start params isAsync) s :=
  (Proceeds.expectKind _).bind fun _ _ _ => hg.built (built_arrowBody ..)

theorem singleParameterArrow (start : Nat) (isAsync : Bool) (s : ParserState) :
    Typeahead.Proceeds (singleParameterArrow g start isAsync) s :=
  .look ((hg.built (.bindingName (O := fun _ => True))).bind fun _ _ _ =>
    (Proceeds.look (.pure _)).bind fun _ _ _ => hg.arrowRest ..)

theorem arrowParameters? (s : ParserState) : Typeahead.Proceeds (arrowParameters? g) s :=
  .arrowParameters? (hg.built (begins_parameterList (O := fun _ => True)).built)

/-- Whether the parameters are found behind the `async` or the parse is back at it. -/
theorem asyncArrowParameters? (s : ParserState) : Typeahead.Proceeds (asyncArrowParameters? g) s := by
  have hread := s.follows_advance
  have htried := hg.arrowParameters? s.advance
  constructor <;> intro a t hrun <;> rw [Grammar.asyncArrowParameters?] at hrun <;> split at hrun
  · rename_i u hu
    cases hrun
    exact (hread.trans (htried.ok hu)).back
  · exact hread.trans (htried.ok hrun)
  · cases hrun
  · exact hread.trans (htried.error hrun)

theorem asyncPrimary (s : ParserState) : Typeahead.Proceeds (asyncPrimary g) s := by
  have hname : ∀ u, Typeahead.Proceeds (do
      let token ← Parse.next
      Parse.finish s.offset (.identifier token.text)) u := fun _ =>
    Proceeds.next.bind fun _ _ _ => .look (.pure _)
  refine .look ?_
  dsimp only
  split
  · exact hname s
  split
  · exact Proceeds.next.bind fun _ _ _ => hg.built (begins_functionExpression ..).built
  split
  · exact Proceeds.next.bind fun _ _ _ => hg.singleParameterArrow ..
  split
  · refine (hg.asyncArrowParameters? s).bind fun o u _ => ?_
    cases o with
    | some params => exact hg.arrowRest ..
    | none => exact hname u
  · exact hname s

theorem namePrimary (s : ParserState) : Typeahead.Proceeds (namePrimary g) s := by
  refine .look ?_
  split
  · exact hg.singleParameterArrow ..
  · exact Proceeds.next.bind fun _ _ _ => .look (.pure _)

theorem primary (s : ParserState) : Typeahead.Proceeds (primary g) s := by
  by_cases hs : s.AtAsyncCall
  · have hasync : Grammar.primary g s = Grammar.asyncPrimary g s := by
      rw [Grammar.primary, get_run, hs.1]
    exact ⟨fun h => (hg.asyncPrimary s).ok (hasync.symm.trans h),
      fun h => (hg.asyncPrimary s).error (hasync.symm.trans h)⟩
  · exact hg.built (built_primary hs)

theorem variableDeclaration (s : ParserState) : Typeahead.Proceeds (variableDeclaration g) s :=
  Proceeds.next.bind fun _ _ _ => (hg.built built_variableDeclarator).bind fun _ _ _ =>
    (hg.built built_moreDeclarators).bind fun _ _ _ => .look (.pure _)

theorem variableStatement (s : ParserState) : Typeahead.Proceeds (variableStatement g) s :=
  .look ((hg.variableDeclaration s).bind fun _ _ _ =>
    (hg.built (.semicolon (O := fun _ => True))).bind fun _ _ _ => .look (.pure _))

theorem forInOfRest (start : Nat) (left : Node) (s : ParserState) :
    Typeahead.Proceeds (forInOfRest g start left) s := by
  refine Proceeds.next.bind fun token u _ => ?_
  have hrest : ∀ (right : Node) v, Typeahead.Proceeds (do
      let _ ← Parse.expect .closeParen
      let body ← g .statement
      Parse.finish start (.forInOf left right body (token.kind == .keyword .ofWord))) v := fun _ _ =>
    (Proceeds.expectKind _).bind fun _ _ _ => (hg _ _).bind fun _ _ _ => .look (.pure _)
  dsimp only
  split
  · exact (hg _ _).bind fun _ _ _ => hrest _ _
  · exact (hg.built built_innerSequence).bind fun _ _ _ => hrest _ _

theorem statementList (done : ParserState → Bool) (s : ParserState) :
    Typeahead.Proceeds (statementList g done) s :=
  .look (.collect (fun u => .listedStatement hg u) _ _)

theorem reservedStatement (word : String) (s : ParserState) :
    Typeahead.Proceeds (reservedStatement g word) s := by
  rw [Grammar.reservedStatement.eq_def]
  split
  · exact hg.built begins_ifStatement.built
  · exact hg.built begins_whileStatement.built
  · exact hg.built begins_doStatement.built
  · exact hg.built begins_forStatement.built
  · exact hg.built begins_tryStatement.built
  · exact hg.built begins_throwStatement.built
  · exact hg.built begins_switchStatement.built
  · exact proceeds_jumpStatement ..
  · exact proceeds_jumpStatement ..
  · exact hg.built begins_expressionStatement.built

end Grammar.Proceeds

/-! ### All functions -/

/-- **Every function of the grammar leads on**, if the productions it calls on do. -/
theorem IsParseFunction.proceeds {x : Grammar → Parse α} (hx : IsParseFunction x) (hg : g.Proceeds) :
    ∀ s, Proceeds (x g) s := by
  induction hx with
  | nextIf p => exact fun _ => .nextIf p
  | expectKind kind => exact fun _ => .expectKind kind
  | expectReserved => exact fun _ => hg.built (.expectReserved (O := fun _ => True))
  | bindingName => exact fun _ => hg.built (.bindingName (O := fun _ => True))
  | anyWord => exact fun _ => hg.built (.anyWord (O := fun _ => True))
  | semicolon => exact fun _ => hg.built (.semicolon (O := fun _ => True))
  | sequenceOf _ ih => exact .sequenceOf ih
  | innerSequence => exact fun _ => hg.built built_innerSequence
  | memberName => exact fun _ => hg.built (built_memberName (O := fun _ => True))
  | computedKey => exact fun _ => hg.built (built_computedKey (O := fun _ => True))
  | separator => exact fun _ => hg.built (built_separator (O := fun _ => True))
  | spreadOrAssignment => exact fun _ => hg.built built_spreadOrAssignment
  | arguments => exact fun _ => hg.built (built_arguments (O := fun _ => True))
  | arrayLiteral => exact fun _ => hg.built (begins_arrayLiteral (O := fun _ => True)).built
  | propertyKey => exact fun _ => hg.built (built_propertyKey (O := fun _ => True))
  | shorthandValue => exact fun _ => hg.built (built_shorthandValue _)
  | propertyFrom => exact fun _ => hg.built (built_propertyFrom ..)
  | objectMember => exact fun _ => hg.built built_objectMember
  | objectLiteral => exact fun _ => hg.built (begins_objectLiteral (O := fun _ => True)).built
  | parameterFrom => exact fun _ => hg.built (built_parameterFrom ..)
  | parametersFrom => exact fun _ => hg.built (built_parametersFrom ..)
  | parameterList => exact fun _ => hg.built (begins_parameterList (O := fun _ => True)).built
  | closeBrace => exact proceeds_closeBrace
  | listedStatement => exact .listedStatement hg
  | statementList done => exact hg.statementList done
  | block => exact fun _ => hg.built begins_block.built
  | functionRest => exact fun _ => hg.built (begins_functionRest ..).built
  | method => exact fun _ => hg.built (begins_method _).built
  | elementName => exact fun _ => hg.built (begins_elementName (O := fun _ => True)).built
  | accessorKind => exact fun _ => hg.built (built_accessorKind (O := fun _ => True) ..)
  | elementFrom => exact fun _ => hg.built (begins_elementFrom ..).built
  | elementAfterAccess => exact fun _ => hg.built (begins_elementAfterAccess _).built
  | classElement => exact fun _ => hg.built begins_classElement.built
  | listedElement => exact .listedElement fun _ => hg.built begins_classElement.built
  | classParts => exact fun _ => hg.built (begins_classParts _).built
  | arrowParameters? => exact hg.arrowParameters?
  | arrowRest start params isAsync => exact hg.arrowRest start params isAsync
  | singleParameterArrow start isAsync => exact hg.singleParameterArrow start isAsync
  | parenthesizedOrArrow => exact fun _ => hg.built (begins_parenthesizedOrArrow _).built
  | functionExpression => exact fun _ => hg.built (begins_functionExpression ..).built
  | asyncArrowParameters? => exact hg.asyncArrowParameters?
  | asyncPrimary => exact hg.asyncPrimary
  | namePrimary => exact hg.namePrimary
  | leaf kind => exact proceeds_leaf kind
  | primary => exact hg.primary
  | newCalleeTail => exact fun _ => hg.built (built_newCalleeTail ..)
  | newExpression => exact fun _ => hg.built begins_newExpression.built
  | suffixes => exact fun _ => hg.built (built_suffixes ..)
  | leftHandSide => exact fun _ => hg.built begins_leftHandSide.built
  | postfixExpression => exact fun _ => hg.built (begins_postfixExpression _).built
  | unary => exact fun _ => hg.built begins_unary.built
  | binaryTail => exact fun _ => hg.built (built_binaryTail ..)
  | binary => exact fun _ => hg.built (begins_binary _).built
  | conditional => exact fun _ => hg.built begins_conditional.built
  | assignment => exact fun _ => hg.built begins_assignment.built
  | expressionStatement => exact fun _ => hg.built begins_expressionStatement.built
  | variableDeclarator => exact fun _ => hg.built built_variableDeclarator
  | moreDeclarators => exact fun _ => hg.built built_moreDeclarators
  | variableDeclaration => exact hg.variableDeclaration
  | variableStatement => exact hg.variableStatement
  | functionDeclaration => exact fun _ => hg.built begins_functionDeclaration.built
  | classDeclaration => exact fun _ => hg.built begins_classDeclaration.built
  | returnStatement => exact fun _ => hg.built begins_returnStatement.built
  | condition => exact fun _ => hg.built (built_condition (O := fun _ => True))
  | ifStatement => exact fun _ => hg.built begins_ifStatement.built
  | whileStatement => exact fun _ => hg.built begins_whileStatement.built
  | doStatement => exact fun _ => hg.built begins_doStatement.built
  | forInit => exact fun _ => hg.built built_forInit
  | forInOfRest start left => exact hg.forInOfRest start left
  | forRest => exact fun _ => hg.built (built_forRest ..)
  | forStatement => exact fun _ => hg.built begins_forStatement.built
  | switchCase => exact fun _ => hg.built begins_switchCase.built
  | switchStatement => exact fun _ => hg.built begins_switchStatement.built
  | catchParam => exact fun _ => hg.built (built_catchParam (O := fun _ => True))
  | catchClause => exact fun _ => hg.built built_catchClause
  | tryStatement => exact fun _ => hg.built begins_tryStatement.built
  | throwStatement => exact fun _ => hg.built begins_throwStatement.built
  | jumpStatement kind => exact proceeds_jumpStatement kind
  | reservedStatement word => exact hg.reservedStatement word
  | statement => exact fun _ => hg.built begins_statement.built

/-- A production over as many levels as the state has tokens leads on. -/
theorem proceeds_parse (q : Production) (s : ParserState) : Proceeds (parse q) s :=
  .look (parseLevel_proceeds _ q s)

theorem proceeds_program (s : ParserState) : Proceeds program s :=
  .look ((Proceeds.look (.collect (fun u => by
    rw [map_eq_pure_bind]
    exact (proceeds_parse _ u).bind fun _ _ _ => .pure _) _ _)).bind fun _ _ _ => .look (.pure _))

/-! ### Documents -/

/-- A statement that does not parse is skipped, so the parse goes on: but for the fault it is as
after any other. -/
theorem statementOrSkip_intact {x : Parse Node} (hx : Proceeds x s) :
    ∃ o t, statementOrSkip x s = .ok o t ∧ s.Follows { t with faults := s.faults } := by
  rcases statementOrSkip_cases x s with ⟨n, t, hrun, hread⟩ | ⟨e, t, hrun, hskip⟩
  · exact ⟨some n, t, hread, { hx.ok hrun with faults := List.suffix_refl _, strict := fun _ => rfl }⟩
  · have hfailed : s.Follows { t with faults := s.faults } :=
      { hx.error hrun with faults := List.suffix_refl _, strict := fun _ => rfl }
    exact ⟨none, skipStatement s.position (t.report e), hskip, hfailed.trans
      { follows_skipStatement s.position (t.report e) with faults := List.suffix_refl _, strict := fun _ => rfl }⟩

/-- While recovering statements are read and skipped, however many. -/
theorem collect_recovers {done : ParserState → Bool} {x : Parse Node} (hx : ∀ s, Proceeds x s) :
    ∀ rounds {s}, s.recovering = true →
      ∃ body t, collect done (statementOrSkip x) rounds s = .ok body t ∧ s.Follows t
  | 0, s, _ => ⟨[], s, rfl, .rfl s⟩
  | rounds + 1, s, hs => by
    rw [collect, get_run]
    split
    · exact ⟨[], s, rfl, .rfl s⟩
    · obtain ⟨o, u, hu, -⟩ := statementOrSkip_intact (hx s)
      have hf := (Proceeds.statementOrSkip hs (hx s)).ok hu
      obtain ⟨body, t, ht, hf'⟩ := collect_recovers hx rounds (hf.recovering.trans hs)
      exact ⟨o.toList ++ body, t, (bind_of_ok hu).trans (bind_of_ok ht), hf.trans hf'⟩

/-- A document is its statements, with the faults in the order in which they were met. -/
theorem document_eq {body : List Node} (h : collectUntil (·.atEnd) (statementOrSkip (parse .statement))
    { s with recovering := true } = .ok body t) :
    document s = .ok (⟨⟨s.offset, t.current.stop⟩, .program body⟩, t.faults.reverse)
      { t with recovering := false, faults := [] } :=
  bind_of_ok h

/-- **A document is parsed from whatever state**, and leaves a state in which neither recovery is on
nor a fault is kept. -/
theorem document_intact (s : ParserState) : ∃ result t, document s = .ok result t ∧
    s.Follows { t with recovering := s.recovering, faults := s.faults } ∧ t.recovering = false ∧ t.faults = [] := by
  obtain ⟨body, t, hrun, hf⟩ : ∃ body t, collect (·.atEnd) (statementOrSkip (parse .statement)) s.rounds
      { s with recovering := true } = .ok body t ∧ ParserState.Follows { s with recovering := true } t :=
    collect_recovers (proceeds_parse .statement) _ rfl
  exact ⟨_, _, document_eq hrun,
    { hf with recovering := rfl, faults := List.suffix_refl _, strict := fun _ => rfl }, rfl, rfl⟩

theorem arrowParameters?_none_faults (h : arrowParameters? g s = .ok none t) : t.faults = s.faults := by
  rw [arrowParameters?] at h
  split at h
  · cases h
    rfl
  · split at h
    · split at h <;> cases h
      rfl
    · cases h
      rfl

/-- **Every parse leaves the state intact**, however it ends: every function of the grammar, the
productions and programs lead on from every state; so does a statement that may be skipped, but
for the fault it adds; a document leaves no recovery and no fault behind; and where no parameters of
an arrow function are found the parse is back where it began, with the faults it had. -/
theorem parses_intact :
    (∀ {α : Type} {x : Grammar → Parse α}, IsParseFunction x → ∀ levels s, Proceeds (x (parseLevel levels)) s) ∧
    (∀ q s, Proceeds (parse q) s) ∧ (∀ s, Proceeds program s) ∧
    (∀ levels s, ∃ o t, statementOrSkip (parseLevel levels .statement) s = .ok o t ∧
      s.Follows { t with faults := s.faults }) ∧
    (∀ s, ∃ result t, document s = .ok result t ∧
      s.Follows { t with recovering := s.recovering, faults := s.faults } ∧ t.recovering = false ∧ t.faults = []) ∧
    ∀ levels s t, arrowParameters? (parseLevel levels) s = .ok none t →
      t.stream = s.stream ∧ t.faults = s.faults :=
  ⟨fun hx levels => hx.proceeds (parseLevel_proceeds levels), proceeds_parse, proceeds_program,
    fun levels s => statementOrSkip_intact (parseLevel_proceeds levels _ s), document_intact,
    fun _ _ _ h => ⟨arrowParameters?_none h, arrowParameters?_none_faults h⟩⟩

/-- A list in parentheses that no arrow follows, and an expression that breaks off in a call. -/
theorem parses_intact_in_call :
    (∃ u, arrowParameters? (parseLevel 9) (.ofText "(a)".toList) = .ok none u ∧
      u.stream = .ofText "(a)".toList ∧ u.faults = []) ∧
    Proceeds (assignment (parseLevel 9)) (.ofText "f((a".toList) := by
  obtain ⟨r, u, hu⟩ := arrowParameters?_ok (parseLevel 9) (.ofText "(a)".toList)
  have hnone : ((arrowParameters? (parseLevel 9)).result (.ofText "(a)".toList)).toOption.join.isNone = true := by
    decide +kernel
  rw [Parse.result, hu] at hnone
  obtain rfl : r = none := Option.isNone_iff_eq_none.1 hnone
  exact ⟨⟨u, hu, parses_intact.2.2.2.2.2 9 _ u hu⟩, parses_intact.1 .assignment 9 _⟩

end Typeahead
