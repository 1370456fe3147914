/-
# The depth of what stands between brackets

Arguments, arrays, objects, parameters and bodies: what they hold is deeper by a step, but for
the methods of an object and the patterns among their parameters.

Key theorems: `makes_sequenceOf`, `makes_objectLiteral`, `makes_parameterList`, `makes_block`,
`makes_classParts`.
-/
import Typeahead.Proofs.Depth.Run

namespace Typeahead

open Parse Grammar Node

variable {depth most : Nat} {g : Grammar}

/-- The parameters and the body of a function. -/
structure FunctionParts.Shaped (most : Nat) (parts : FunctionParts Node) : Prop where
  params : AllShaped (most + 2) parts.params
  body : parts.body.Shaped (most + 1)

/-- The superclass and the members of a class. -/
structure ClassParts.Shaped (most : Nat) (parts : ClassParts Node) : Prop where
  superclass : AllShaped (most + 4) parts.superclass.toList
  members : AllShaped (most + 3) parts.members

theorem FunctionParts.Shaped.functionNode {start : Nat} {parts : FunctionParts Node} (h : parts.Shaped most) :
    Node.Shaped (most + 2) (functionNode start parts) :=
  .node (Nat.lt_succ_self _) trivial h.params (.single h.body)

theorem Node.shaped_of_identifier? {n : Node} (h : n.identifier?.isSome = true) : n.Shaped most := by
  obtain ⟨range, kind⟩ := n
  cases kind with
  | identifier => exact .leaf rfl trivial
  | _ => cases h

theorem makes_sequenceOf {x : Parse Node} (hx : Makes depth (Node.Shaped most) x) :
    Makes depth (Node.Shaped (most + 1)) (sequenceOf x) := by
  refine .offset fun start => hx.bind fun first hfirst => .look fun s => ?_
  split
  · exact .pure (hfirst.mono (Nat.le_succ _))
  · exact (Makes.list (.next fun _ => hx.bind fun n hn => .pure (.single hn))).bind fun others hothers =>
      .finish fun _ => .plain rfl trivial (.cons hfirst hothers)

theorem makes_memberName : Makes depth (Node.Shaped most) memberName := by
  refine .offset fun start => .nextIf fun b => ?_
  split <;> exact .anyWord fun name => .finish fun _ => .leaf rfl trivial

section

variable (hg : g.Shapes depth most)
include hg

theorem makes_innerSequence : Makes depth (Node.Shaped (most + 1)) (innerSequence g) :=
  makes_sequenceOf hg.assignment

theorem makes_computedKey : Makes depth (Node.Shaped (most + 1)) (computedKey g) :=
  .expectKind fun _ => (makes_innerSequence hg).allowIn.bind fun _ hkey => .expectKind fun _ => .pure hkey

theorem makes_spreadOrAssignment : Makes depth (Node.Shaped (most + 1)) (spreadOrAssignment g) := by
  refine .offset fun start => .nextIf fun b => ?_
  split
  · exact hg.assignment.bind fun argument h => .finish fun _ => .plain rfl trivial (.single h)
  · exact hg.assignment.mono (Nat.le_succ _)

omit hg in
theorem makes_separator {close : Punctuator} : Makes depth (fun _ => True) (separator close) := by
  refine .look fun s => ?_
  split
  · exact .expectKind fun _ => .pure trivial
  · exact .pure trivial

theorem makes_arguments : Makes depth (AllShaped (most + 1)) (arguments g) :=
  .expectKind fun _ => (Makes.allowIn (.list ((makes_spreadOrAssignment hg).bind fun _ hitem =>
    makes_separator.bind fun _ _ => .pure (.single hitem)))).bind fun _ hitems => .expectKind fun _ => .pure hitems

theorem makes_arrayLiteral : Makes depth (Node.Shaped (most + 2)) (arrayLiteral g) := by
  refine .offset fun start => .expectKind fun _ => (Makes.allowIn (.list (.nextIf fun hole => ?_))).bind
    fun items hitems => .expectKind fun _ => .finish fun _ => .plain rfl trivial hitems
  split
  · exact .pure .nil
  · exact (makes_spreadOrAssignment hg).bind fun _ h => makes_separator.bind fun _ _ => .pure (.single h)

/-! ### Objects -/

omit hg in
theorem shaped_literalOfToken (token : Token) (range : TextRange) : Node.Shaped most ⟨range, literalOfToken token⟩ := by
  rw [literalOfToken]
  split
  · exact .leaf rfl trivial
  · split <;> exact .leaf rfl trivial

theorem makes_propertyKey : Makes depth (fun key => key.1.Shaped (most + 1)) (propertyKey g) := by
  refine .look fun s => ?_
  dsimp only
  split
  · exact (makes_computedKey hg).bind fun key hkey => .pure hkey
  · exact .next fun token => (Makes.finish (shaped_literalOfToken _)).bind fun key hkey => .pure hkey
  · exact .next fun token => (Makes.finish (shaped_literalOfToken _)).bind fun key hkey => .pure hkey
  · split
    · exact .next fun token => (Makes.finish fun _ => .leaf rfl trivial).bind fun key hkey => .pure hkey
    · exact .fail

/-- The value of a shorthand property abbreviates its key, a name. -/
theorem makes_shorthandValue {key : Node} (hkey : key.identifier?.isSome = true) : Makes depth (fun value =>
    value.Shaped (most + 1) ∧
      (NodeKind.property key value false true false).Abbreviates) (shorthandValue g key) := by
  refine .nextIf fun b => ?_
  split
  · exact hg.assignment.bind fun fallback h => .pure
      ⟨.plain rfl trivial (.cons (shaped_of_identifier? hkey) (.single h)), rfl, .inr ⟨fallback, rfl⟩⟩
  · exact .pure ⟨shaped_of_identifier? hkey, rfl, .inl rfl⟩

theorem makes_propertyFrom {start : Nat} {isAsync : Bool} :
    Makes depth (Node.Shaped (most + 2)) (propertyFrom g start isAsync) := by
  refine (makes_propertyKey hg).bind fun key hkey => .look fun s => ?_
  split
  · -- a method is as deep as its object
    exact (hg.makes (.method isAsync)).bind fun value hvalue => .finish fun _ =>
      .node (Nat.lt_succ_self _) trivial (.single hvalue) (.single hkey)
  · refine .nextIf fun colon => ?_
    split
    · exact hg.assignment.bind fun value hvalue => .finish fun _ =>
        .plain rfl trivial (.cons hkey (.single (hvalue.mono (Nat.le_succ _))))
    · split
      · rename_i hname
        rw [Bool.and_eq_true] at hname
        exact (makes_shorthandValue hg hname.2).bind fun value hvalue => .finish fun _ =>
          .plain rfl hvalue.2 (.cons hkey (.single hvalue.1))
      · exact .look fun _ => .fail

theorem makes_objectMember : Makes depth (Node.Shaped (most + 2)) (objectMember g) := by
  refine .offset fun start => .nextIf fun spread => ?_
  split
  · exact hg.assignment.bind fun argument h => .finish fun _ =>
      .plain rfl trivial (.single (h.mono (Nat.le_succ _)))
  · exact .nextIf fun isAsync => .nextIf fun isGenerator => .nextIf fun _ => makes_propertyFrom hg

theorem makes_objectLiteral : Makes depth (Node.Shaped (most + 2)) (objectLiteral g) :=
  .offset fun _ => .expectKind fun _ => (Makes.allowIn (.list ((makes_objectMember hg).bind fun _ h =>
    makes_separator.bind fun _ _ => .pure (.single h)))).bind fun _ h => .expectKind fun _ =>
      .finish fun _ => .node (Nat.lt_succ_self _) trivial h .nil

/-! ### Parameters -/

theorem makes_parameterFrom {start : Nat} {isRest : Bool} :
    Makes depth (Node.Shaped (most + 2)) (parameterFrom g start isRest) := by
  have hfallback : ∀ (name : String) {pattern : Option Node}, AllShaped (most + 2) pattern.toList →
      Makes depth (Node.Shaped (most + 2)) (do
        let fallback ← if ← nextMark .equals then some <$> allowIn (g .assignment) else pure none
        finish start (.parameter name pattern fallback isRest)) := fun name pattern hpattern =>
    .nextIf fun equals => .optional hg.assignment.allowIn fun fallback h => .finish fun _ =>
      .node (Nat.lt_succ_self _) trivial hpattern (h.mono (Nat.le_succ _))
  have hname : Makes depth (Node.Shaped (most + 2)) (do
      let name ← bindingName
      let p ← pure (name, none)
      let fallback ← if ← nextMark .equals then some <$> allowIn (g .assignment) else pure none
      finish start (.parameter p.1 p.2 fallback isRest)) :=
    .bindingName fun name => hfallback name .nil
  refine .look fun s => ?_
  cases s.kind with
  | punct mark =>
    cases mark
    case openBrace => exact (makes_objectLiteral hg).bind fun pattern h => hfallback "" (.single h)
    case openBracket => exact (makes_arrayLiteral hg).bind fun pattern h => hfallback "" (.single h)
    all_goals exact hname
  | _ => exact hname

theorem makes_parametersFrom : ∀ rounds : Nat, Makes depth (AllShaped (most + 2)) (parametersFrom g rounds)
  | 0 => .pure .nil
  | rounds + 1 => by
    rw [parametersFrom]
    refine .look fun s => ?_
    split
    · exact .pure .nil
    · refine .offset fun start => .nextIf fun isRest => (makes_parameterFrom hg).bind fun parameter hparameter =>
        .look fun s => ?_
      split
      · exact .pure (.single hparameter)
      · exact .expectKind fun _ => (makes_parametersFrom rounds).bind fun others hothers =>
          .pure (.cons hparameter hothers)

theorem makes_parameterList : Makes depth (AllShaped (most + 2)) (parameterList g) :=
  .expectKind fun _ => .look fun s => (makes_parametersFrom hg s.rounds).bind fun _ h =>
    .expectKind fun _ => .pure h

/-! ### Bodies -/

omit hg in
/-- What is skipped is no piece of the tree. -/
theorem Makes.statementOrSkip {x : Parse Node} (hx : Makes depth (Node.Shaped most) x) (hp : ∀ s, Proceeds x s) :
    Makes depth (fun o => AllShaped most o.toList) (statementOrSkip x) := by
  intro s o t hs hrun
  rcases statementOrSkip_cases x s with ⟨n, u, hu, hread⟩ | ⟨e, u, hu, hskip⟩
  · cases hread.symm.trans hrun
    obtain ⟨hdepth, hn⟩ := hx s n _ hs hu
    exact ⟨hdepth, .single hn⟩
  · cases hskip.symm.trans hrun
    have hfailed : u.depth = depth := ((hp s).error hu).depth.trans hs
    exact ⟨(follows_skipStatement s.position (u.report e)).depth.trans hfailed, .nil⟩

theorem makes_listedStatement : Makes depth (fun o => AllShaped most o.toList) (listedStatement g) := by
  refine .look fun s => ?_
  split
  · exact .statementOrSkip hg.statement (hg.proceeds .statement)
  · exact hg.statement.bind fun n h => .pure (.single h)

theorem makes_statementList {done : ParserState → Bool} : Makes depth (AllShaped most) (statementList g done) :=
  .list (makes_listedStatement hg)

theorem makes_block : Makes depth (Node.Shaped (most + 1)) (block g) :=
  .offset fun _ => .expectKind fun _ => (makes_statementList hg).bind fun _ h =>
    .step proceeds_closeBrace fun _ => .pure (.plain rfl trivial h)

theorem makes_functionRest {name : Option String} {isAsync : Bool} :
    Makes depth (FunctionParts.Shaped most) (functionRest g name isAsync) :=
  (makes_parameterList hg).bind fun _ hparams => (makes_block hg).allowIn.bind fun _ hbody =>
    .pure ⟨hparams, hbody⟩

theorem makes_method {isAsync : Bool} : Makes depth (Node.Shaped (most + 2)) (method g isAsync) :=
  .offset fun _ => (makes_functionRest hg).bind fun _ h => .pure h.functionNode

/-! ### Classes -/

theorem makes_elementFrom {start : Nat} {isStatic isAsync isGenerator : Bool} :
    Makes depth (Node.Shaped (most + 3)) (elementFrom g start isStatic isAsync isGenerator) := by
  refine .step (IsParseFunction.proceeds (.accessorKind ..) hg.proceeds) fun kind =>
    .step (IsParseFunction.proceeds .elementName hg.proceeds) fun key => .look fun s => ?_
  split
  · exact .offset fun bodyStart => (makes_functionRest hg).bind fun parts h =>
      .pure (.plain rfl ⟨parts, rfl⟩ (.single h.functionNode))
  · exact .nextIf fun equals => .optional hg.assignment fun value h => .semicolon fun _ => .finish fun _ =>
      .plain rfl trivial (h.mono (Nat.le_add_right ..))

theorem makes_elementAfterAccess {start : Nat} :
    Makes depth (fun o => AllShaped (most + 3) o.toList) (elementAfterAccess g start) := by
  refine .look fun s => ?_
  split
  · exact .next fun _ => (makes_block hg).bind fun _ _ => .pure .nil
  · exact .nextIf fun isStatic => .nextIf fun isAsync => .nextIf fun isGenerator =>
      (makes_elementFrom hg).bind fun element h => .pure (.single h)

theorem makes_classElement : Makes depth (fun o => AllShaped (most + 3) o.toList) (classElement g) :=
  .offset fun _ => (Makes.collectUntil (P := fun _ => True) (.next fun _ => .pure fun _ _ => trivial)).bind
    fun _ _ => makes_elementAfterAccess hg

theorem makes_listedElement : Makes depth (fun o => AllShaped (most + 3) o.toList) (listedElement g) := by
  intro s o t hs hrun
  refine ⟨((IsParseFunction.listedElement.proceeds hg.proceeds s).ok hrun).depth.trans hs, ?_⟩
  rcases listedElement_cases g s with
    ⟨-, hsemicolon⟩ | ⟨-, ⟨o', u, hu, hread⟩ | ⟨e, u, -, ⟨-, hskip⟩ | ⟨-, hfail⟩⟩⟩
  · cases hsemicolon.symm.trans hrun
    exact .nil
  · cases hread.symm.trans hrun
    exact (makes_classElement hg s _ _ hs hu).2
  · cases hskip.symm.trans hrun
    exact .nil
  · cases hfail.symm.trans hrun

theorem makes_classParts {requireName : Bool} : Makes depth (ClassParts.Shaped most) (classParts g requireName) := by
  have hextends : ∀ name : Option String, Makes depth (ClassParts.Shaped most) (do
      let superclass ←
        if ← nextIf (·.atKeyword .extendsWord) then some <$> g .leftHandSide else pure none
      let bodyStart ← offset
      let _ ← expect .openBrace
      let members ← collectUntil (fun s => s.atMark .closeBrace || s.atEnd) (listedElement g)
      let stop ← closeBrace
      return ({ name, superclass, members, bodyRange := ⟨bodyStart, stop⟩ } : ClassParts Node)) := fun name =>
    .nextIf fun b => .optional (hg.makes .leftHandSide) fun superclass hsuper => .offset fun bodyStart =>
      .expectKind fun _ => (Makes.list (makes_listedElement hg)).bind fun members hmembers =>
        .step proceeds_closeBrace fun stop => .pure ⟨hsuper, hmembers⟩
  refine .expectKind fun _ => .look fun s => ?_
  split
  · exact .built (fun _ => .map (.bindingName (O := fun _ => True)) fun _ _ => trivial) fun name => hextends name
  · exact hextends none

end
end Typeahead
