/-
# Brackets under the restriction on `in`

What stands in brackets, a function or a class is to be read without the restriction. So it is for groups,
literals, parameters and functions; not so for classes, whose fields and static blocks the restriction gets
into.

Key definitions: `Node.isExpressionArrow`, `TokenKind.opensBrackets`, `ParserState.BeginsExpressionArrow`.
Key theorems: `primary_restricted`, `not_restricted_to_arrows`.
-/
import Typeahead.Proofs.Parse.NoBlock
import Typeahead.Proofs.Restriction.Expressions

namespace Typeahead

open Parse Grammar

variable {s : ParserState}

/-- An arrow function whose body is an expression. -/
def Node.isExpressionArrow : Node → Bool
  | ⟨_, .arrowFunction _ body _⟩ => !body.isBlock
  | _ => false

/-- Something in brackets begins, a function or a class. -/
def TokenKind.opensBrackets : TokenKind → Bool
  | .punct .openParen | .punct .openBracket | .punct .openBrace => true
  | .keyword .functionWord | .keyword .classWord => true
  | _ => false

/-- The parameters of an arrow function begin whose body is an expression. -/
def ParserState.BeginsExpressionArrow (levels : Nat) (s : ParserState) : Prop :=
  ∃ params t, arrowParameters? (parseLevel levels) { s with noIn := true } = .ok (some params) t ∧
    t.advance.atMark .openBrace = false

theorem isExpressionArrow_of_arrowRest {levels start : Nat} {params : List Node} {isAsync : Bool} {n : Node}
    (hbrace : s.advance.atMark .openBrace = false)
    (h : arrowRest (parseLevel levels) start params isAsync s = .ok n t) : n.isExpressionArrow = true := by
  obtain ⟨_, u, hu, h⟩ := bind_ok.1 h
  obtain ⟨-, -, rfl⟩ := expect_ok hu
  rw [get_run, hbrace] at h
  obtain ⟨body, v, hv, h⟩ := bind_ok.1 h
  cases h
  rw [Node.isExpressionArrow, noBlock_parseLevel levels _ _ _ hv]
  rfl

/-- The body of an arrow function in braces. -/
theorem agrees_arrowRest {levels start : Nat} {params : List Node} {isAsync : Bool}
    (hbrace : s.advance.atMark .openBrace = true) : Agrees (arrowRest (parseLevel levels) start params isAsync) s := by
  refine (Agrees.expectKind _).bind fun _ t ht => .look (fun _ => rfl) ?_
  obtain ⟨-, -, ht⟩ := expectKind_ok ht
  have hbrace : t.atMark .openBrace = true := (congrArg (·.atMark .openBrace) ht).trans hbrace
  rw [if_pos hbrace]
  exact (Agrees.allowIn (IsParseFunction.block.proceeds (parseLevel_proceeds _))).bind fun _ _ _ => .pure _

/-- What begins with a parenthesis is the same, or it is an arrow function whose body is an expression. -/
theorem agrees_or_expressionArrow (levels start : Nat) (s : ParserState) :
    Agrees (parenthesizedOrArrow (parseLevel levels) start) s ∨
      (∃ n t, parenthesizedOrArrow (parseLevel levels) start { s with noIn := true } = .ok n t ∧
        n.isExpressionArrow = true ∧ t.kind = .keyword .inWord) ∨
      s.BeginsExpressionArrow levels ∧ ∃ below c, LeakyClass below c ∧ s.Ahead c ∧
        GetsTo c (parenthesizedOrArrow (parseLevel levels) start) s := by
  have hprimary : Restricted (parenthesizedOrArrow (parseLevel levels) start) s :=
    restricted_parenthesizedOrArrow (restricted_parseLevel levels)
  rcases hprimary.outcome with hagrees | hrestricted
  · exact .inl hagrees
  have hparams : Agrees (arrowParameters? (parseLevel levels)) s :=
    IsParseFunction.arrowParameters?.agrees _ (.arrowParameters? _)
  cases hparams with
  | error ht hfalse htrue => exact .inl (.error ht (bind_of_error hfalse) (bind_of_error htrue))
  | @ok params t ht hfalse htrue =>
    have hrun : ∀ noIn, arrowParameters? (parseLevel levels) { s with noIn } = .ok params { t with noIn } := by
      rintro (_ | _)
      · exact hfalse
      · exact htrue
    cases params with
    | none => exact .inl (agrees_parenthesized.of_run ht fun noIn => bind_of_ok (hrun noIn))
    | some params =>
      by_cases hbrace : t.advance.atMark .openBrace = true
      · exact .inl ((agrees_arrowRest hbrace).of_run ht fun noIn => bind_of_ok (hrun noIn))
      have hbrace := Bool.eq_false_iff.2 hbrace
      rcases hrestricted with ⟨n, u, hstop, hin⟩ | hleaky
      · refine .inr (.inl ⟨n, u, hstop, ?_, hin⟩)
        exact isExpressionArrow_of_arrowRest (s := { t with noIn := true }) hbrace
          ((bind_of_ok (hrun true)).symm.trans hstop)
      · exact .inr (.inr ⟨⟨params, _, hrun true, hbrace⟩, hleaky⟩)

/-- **The restriction on `in` stops at brackets**, but not at those of a class. What begins with a bracket, a
function or a class is the same under it; or it is an arrow function whose body the restriction ends in
front of an `in`; or a class is not the same, behind the arrow of such a function or this one, since the
restriction gets into its superclass, the value of a field or a static block. -/
theorem primary_restricted (levels : Nat) {s : ParserState} (hs : s.kind.opensBrackets = true) :
    Agrees (primary (parseLevel levels)) s ∨
      (∃ n t, primary (parseLevel levels) { s with noIn := true } = .ok n t ∧
        n.isExpressionArrow = true ∧ t.kind = .keyword .inWord) ∨
      (s.BeginsExpressionArrow levels ∧ ∃ below c, LeakyClass below c ∧ s.Ahead c ∧
        GetsTo c (primary (parseLevel levels)) s) ∨
      LeakyClass levels s := by
  cases hk : s.kind with
  | punct mark =>
    rw [hk] at hs
    cases mark
    case openParen =>
      have hprimary : ∀ noIn, primary (parseLevel levels) { s with noIn } =
          parenthesizedOrArrow (parseLevel levels) s.offset { s with noIn } := by
        intro noIn
        have hkind : ParserState.kind { s with noIn } = .punct .openParen := hk
        rw [primary, get_run, hkind]
        rfl
      rcases agrees_or_expressionArrow levels s.offset s with h | ⟨n, t, h, harrow⟩ |
        ⟨harrow, below, c, hclass, hc, hgets⟩
      · exact .inl (h.of_run (.rfl s) hprimary)
      · exact .inr (.inl ⟨n, t, (hprimary true).trans h, harrow⟩)
      · exact .inr (.inr (.inl ⟨harrow, below, c, hclass, hc, fun h => hgets.ok ((hprimary true).symm.trans h),
          fun h => hgets.error ((hprimary true).symm.trans h)⟩))
    case openBracket =>
      refine .inl (.look (fun _ => rfl) ?_)
      rw [hk]
      exact IsParseFunction.arrayLiteral.agrees _ (.arrayLiteral _)
    case openBrace =>
      refine .inl (.look (fun _ => rfl) ?_)
      rw [hk]
      exact IsParseFunction.objectLiteral.agrees _ (.objectLiteral _)
    all_goals cases hs
  | keyword word =>
    rw [hk] at hs
    cases word
    case functionWord =>
      refine .inl (.look (fun _ => rfl) ?_)
      rw [hk]
      exact (IsParseFunction.functionExpression _ _).agrees _ (.functionExpression _ _ _)
    case classWord =>
      rcases agrees_or_leakyClass (restricted_parseLevel levels) s with hagrees | hleaky
      · refine .inl (.look (fun _ => rfl) ?_)
        rw [hk]
        exact hagrees.bind fun _ _ _ => .finish _ _
      · exact .inr (.inr (.inr hleaky))
    all_goals cases hs
  | _ => rw [hk] at hs; cases hs

/-- A group is the same under the restriction, with an `in` in it. -/
theorem agrees_group : Agrees (primary (parseLevel 6)) (.ofText "(a in b)".toList) := by
  have hgroup : ((primary (parseLevel 6)).result { ParserState.ofText "(a in b)".toList with noIn := true }).toOption.any
      Node.isExpressionArrow = false := by decide +kernel
  have hparams : ((arrowParameters? (parseLevel 6)).result
      { ParserState.ofText "(a in b)".toList with noIn := true }).toOption.join.isNone = true := by decide +kernel
  rcases primary_restricted 6 (s := .ofText "(a in b)".toList) (by decide +kernel) with
    hagrees | ⟨n, t, hrun, harrow, -⟩ | ⟨⟨params, u, hrun, -⟩, -⟩ | hleaky
  · exact hagrees
  · rw [Parse.result, hrun] at hgroup
    exact absurd harrow (Bool.eq_false_iff.1 hgroup)
  · rw [Parse.result, hrun] at hparams
    cases hparams
  · exact absurd hleaky.kind (by decide +kernel)

/-- The value of a field is not the same: not only the bodies of arrow functions are restricted. -/
theorem not_restricted_to_arrows : ¬ ∀ (levels : Nat) (s : ParserState), s.kind.opensBrackets = true →
    Agrees (primary (parseLevel levels)) s ∨
      ∃ n t, primary (parseLevel levels) { s with noIn := true } = .ok n t ∧ n.isExpressionArrow = true := by
  intro h
  have hallowed : ((primary (parseLevel 9)).result
      { ParserState.ofText "class { x = a in b }".toList with noIn := false }).toOption.isSome = true := by
    decide +kernel
  have hrestricted : ((primary (parseLevel 9)).result
      { ParserState.ofText "class { x = a in b }".toList with noIn := true }).toOption.isSome = false := by
    decide +kernel
  rcases h 9 (.ofText "class { x = a in b }".toList) (by decide +kernel) with hagrees | ⟨n, t, hrun, -⟩
  · cases hagrees with
    | ok _ _ htrue =>
      rw [Parse.result, htrue] at hrestricted
      cases hrestricted
    | error _ hfalse _ =>
      rw [Parse.result, hfalse] at hallowed
      cases hallowed
  · rw [Parse.result, hrun] at hrestricted
    cases hrestricted

end Typeahead
