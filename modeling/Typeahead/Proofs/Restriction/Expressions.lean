/-
# Expressions under the restriction on `in`

Under the restriction an expression is the same, or ends in front of an `in`; or a class is read in it that is
not the same. What has ended there is not taken up again: no production reads on at an `in` that is no operator.

Key definitions: `Restricted`, `PassesIn`.
Key theorem: `restricted_parseLevel`.
-/
import Typeahead.Proofs.Restriction.Classes

namespace Typeahead

open Parse Grammar

variable {α β : Type} {g : Grammar} {levels : Nat} {s t : ParserState}

/-- What the restriction may do to a parse: nothing, or end it in front of an `in`, or something that begins with
a class which is not the same. -/
structure Restricted (x : Parse α) (s : ParserState) : Prop where
  ahead : GetsTo s x s
  noIn : ∀ {a t}, x { s with noIn := true } = .ok a t → t.noIn = true
  outcome : Agrees x s ∨ StopsAtIn x s ∨ ∃ below c, LeakyClass below c ∧ s.Ahead c ∧ GetsTo c x s

/-- The parse does nothing at an `in` under the restriction. -/
def PassesIn (x : Parse α) : Prop :=
  ∀ t : ParserState, t.kind = .keyword .inWord → t.noIn = true → ∃ a, x t = .ok a t

/-- The restriction does no more than that to any production but a statement. -/
def RestrictedBelow (levels : Nat) : Prop := ∀ q s, q ≠ .statement → Restricted (parseLevel levels q) s

/-! ### Steps -/

namespace Restricted

variable {x : Parse α} {f : α → Parse β}

theorem of_agrees (h : Agrees x s) : Restricted x s where
  ahead := h.getsTo
  noIn hrun := by
    cases h with
    | ok _ _ htrue => cases htrue.symm.trans hrun; rfl
    | error _ _ htrue => cases htrue.symm.trans hrun
  outcome := .inl h

/-- The parse ends where it begins, in front of an `in`. -/
theorem of_passes {a : α} (hrun : x { s with noIn := true } = .ok a { s with noIn := true })
    (hin : s.kind = .keyword .inWord) : Restricted x s where
  ahead := ⟨fun h => by cases hrun.symm.trans h; exact s.ahead_withNoIn _, fun h => nomatch hrun.symm.trans h⟩
  noIn h := by cases hrun.symm.trans h; rfl
  outcome := .inr (.inl ⟨a, _, hrun, hin⟩)

theorem of_run {y : Parse α} (ht : s.Ahead t) (hrun : ∀ noIn, x { s with noIn } = y { t with noIn })
    (h : Restricted y t) : Restricted x s where
  ahead := ⟨fun h' => ht.trans (h.ahead.ok ((hrun _).symm.trans h')),
    fun h' => ht.trans (h.ahead.error ((hrun _).symm.trans h'))⟩
  noIn h' := h.noIn ((hrun _).symm.trans h')
  outcome := by
    rcases h.outcome with h | ⟨a, u, h, hin⟩ | ⟨below, c, hclass, hc, h⟩
    · exact .inl (h.of_run ht hrun)
    · exact .inr (.inl ⟨a, u, (hrun true).trans h, hin⟩)
    · exact .inr (.inr ⟨below, c, hclass, ht.trans hc, fun h' => h.ok ((hrun _).symm.trans h'),
        fun h' => h.error ((hrun _).symm.trans h')⟩)

/-- The state is seen, but not its restriction. -/
theorem look {f : ParserState → Parse α} (hf : ∀ noIn, f { s with noIn } = f s) (h : Restricted (f s) s) :
    Restricted (get >>= f) s :=
  h.of_run (.rfl s) fun _ => by rw [get_run, hf]

theorem offset {f : Nat → Parse α} (h : Restricted (f s.offset) s) : Restricted (offset >>= f) s :=
  of_run (y := f s.offset) (.rfl s) (fun _ => rfl) h

theorem next {f : Token → Parse α} (h : Restricted (f s.current) s.advance) : Restricted (next >>= f) s :=
  h.of_run s.follows_advance.ahead fun _ => rfl

/-- What was read up to here is the same. -/
theorem behind (hx : Agrees x s) (hf : ∀ a t, Restricted (f a) t) : Restricted (x >>= f) s := by
  cases hx with
  | ok ht hfalse htrue =>
    exact (hf _ _).of_run ht fun noIn => by
      cases noIn with
      | false => exact bind_of_ok hfalse
      | true => exact bind_of_ok htrue
  | error ht hfalse htrue => exact .of_agrees (.error ht (bind_of_error hfalse) (bind_of_error htrue))

/-- What the restriction has ended is not taken up again. -/
theorem bind (hx : Restricted x s) (hf : ∀ a t, Restricted (f a) t) (hstop : ∀ a, PassesIn (f a)) :
    Restricted (x >>= f) s := by
  rcases hx.outcome with h | h
  · exact behind h hf
  -- whatever has become of the first parse, the second leads on from where it ends
  have hnext : ∀ {a t}, x { s with noIn := true } = .ok a t → t = { t with noIn := true } := fun {a t} hrun => by
    rw [← hx.noIn hrun]
  have hrest : ∀ {t}, GetsTo t x s → GetsTo t (x >>= f) s := fun {t} h => by
    refine ⟨fun hrun => ?_, fun hrun => ?_⟩
    · obtain ⟨a, u, hu, hrun⟩ := bind_ok.1 hrun
      exact (h.ok hu).trans ((hf a u).ahead.ok (hnext hu ▸ hrun))
    · rcases bind_error.1 hrun with hrun | ⟨a, u, hu, hrun⟩
      · exact h.error hrun
      · exact (h.ok hu).trans ((hf a u).ahead.error (hnext hu ▸ hrun))
  refine ⟨hrest hx.ahead, fun hrun => ?_, ?_⟩
  · obtain ⟨a, u, hu, hrun⟩ := bind_ok.1 hrun
    exact (hf a u).noIn (hnext hu ▸ hrun)
  · rcases h with ⟨a, t, hrun, hin⟩ | ⟨below, c, hclass, hc, h⟩
    · obtain ⟨b, hb⟩ := hstop a t hin (hx.noIn hrun)
      exact .inr (.inl ⟨b, t, (bind_of_ok hrun).trans hb, hin⟩)
    · exact .inr (.inr ⟨below, c, hclass, hc, hrest h⟩)

theorem nested (h : Restricted x { s with depth := s.depth + 1 }) : Restricted (nested x) s := by
  by_cases hd : maxParseDepth ≤ s.depth
  · exact .of_agrees (.error (.rfl s) (if_pos hd) (if_pos hd))
  have hlt := Nat.lt_of_not_le hd
  have hdepth : ∀ (t : ParserState) (depth : Nat), t.Ahead { t with depth } := fun _ _ => .of_stream rfl
  -- where `x` ends, the nested parse ends, but for the depth
  have hgets : ∀ {t}, GetsTo t x { s with depth := s.depth + 1 } → GetsTo t (Parse.nested x) s := by
    refine fun {t} h => ⟨fun hrun => ?_, fun hrun => ?_⟩
    · obtain ⟨-, u, hu, rfl⟩ := nested_ok hrun
      exact (h.ok hu).trans (hdepth u _)
    · obtain ⟨hle, -⟩ | ⟨u, hu, rfl⟩ := nested_error hrun
      · exact absurd hle hd
      · exact (h.error hu).trans (hdepth u _)
  refine ⟨(hgets h.ahead).mono (hdepth s _), fun hrun => ?_, ?_⟩
  · obtain ⟨-, u, hu, rfl⟩ := nested_ok hrun
    have hnoIn : u.noIn = true := h.noIn hu
    exact hnoIn
  rcases h.outcome with h | ⟨a, t, hrun, hin⟩ | ⟨below, c, hclass, hc, h⟩
  · exact .inl (h.nested hlt)
  · exact .inr (.inl ⟨a, _, nested_of_ok (s := { s with noIn := true }) hlt hrun, hin⟩)
  · exact .inr (.inr ⟨below, c, hclass, (hdepth s _).trans hc, hgets h⟩)

end Restricted

/-! ### What begins an expression -/

theorem restricted_arrowRest (hg : RestrictedBelow levels) {start : Nat} {params : List Node} {isAsync : Bool} :
    Restricted (arrowRest (parseLevel levels) start params isAsync) s := by
  refine .behind (.expectKind _) fun _ t => .look (fun _ => rfl) ?_
  split
  · exact .behind (.allowIn (IsParseFunction.block.proceeds (parseLevel_proceeds _))) fun _ _ => .of_agrees (.pure _)
  · exact (hg _ _ (by simp)).bind (fun _ _ => .of_agrees (.pure _)) fun _ t _ _ => ⟨_, rfl⟩

theorem restricted_singleParameterArrow (hg : RestrictedBelow levels) {start : Nat} {isAsync : Bool} :
    Restricted (singleParameterArrow (parseLevel levels) start isAsync) s :=
  .offset (.behind .bindingName fun _ _ => .behind (.finish _ _) fun _ _ => restricted_arrowRest hg)

theorem agrees_parenthesized {start : Nat} : Agrees (do
    let _ ← expect .openParen
    let expression ← allowIn (innerSequence (parseLevel levels))
    let _ ← expect .closeParen
    finish start (.parenthesized expression)) s :=
  (Agrees.expectKind _).bind fun _ _ _ =>
    (Agrees.allowIn (IsParseFunction.innerSequence.proceeds (parseLevel_proceeds _))).bind fun _ _ _ =>
      (Agrees.expectKind _).bind fun _ _ _ => .finish _ _

theorem restricted_parenthesizedOrArrow (hg : RestrictedBelow levels) {start : Nat} :
    Restricted (parenthesizedOrArrow (parseLevel levels) start) s := by
  refine .behind (IsParseFunction.arrowParameters?.agrees _ (.arrowParameters? _)) fun params t => ?_
  cases params with
  | some params => exact restricted_arrowRest hg
  | none => exact .of_agrees agrees_parenthesized

theorem restricted_asyncPrimary (hg : RestrictedBelow levels) : Restricted (asyncPrimary (parseLevel levels)) s := by
  have hname : ∀ t : ParserState, Restricted (do
      let token ← next
      finish s.offset (.identifier token.text)) t := fun _ => .of_agrees (.next (.finish _ _))
  refine .look (fun _ => rfl) ?_
  dsimp only
  split
  · exact hname s
  split
  · exact .of_agrees (.next ((IsParseFunction.functionExpression _ _).agrees _ (.functionExpression _ _ _)))
  split
  · exact .next (restricted_singleParameterArrow hg)
  split
  · refine .behind (IsParseFunction.asyncArrowParameters?.agrees _ (.asyncArrowParameters? _)) fun params t => ?_
    cases params with
    | some params => exact restricted_arrowRest hg
    | none => exact hname t
  · exact hname s

theorem restricted_namePrimary (hg : RestrictedBelow levels) : Restricted (namePrimary (parseLevel levels)) s := by
  refine .look (fun _ => rfl) ?_
  split
  · exact restricted_singleParameterArrow hg
  · exact .of_agrees (.next (.finish _ _))

/-- A part of a class is the same, or the class is not. -/
theorem ClassPart.agrees_or {x : Parse Node} (hg : RestrictedBelow levels) (h : ClassPart levels s x t) :
    Agrees x t ∨ LeakyClass levels s := by
  have hcause : Restricted x t → Agrees x t ∨ LeakyClass levels s := by
    intro hx
    by_cases hagrees : Agrees x t
    · exact .inl hagrees
    rcases hx.outcome with hagrees | hstops | ⟨below, c, hclass, hc, hgets⟩
    · exact .inl hagrees
    · exact .inr (.stops h hagrees hstops)
    · exact .inr (.inner h hagrees hc hgets hclass)
  have hpart := h
  cases hpart with
  | superclass => exact hcause (hg _ _ (by simp))
  | value => exact hcause (hg _ _ (by simp))
  | staticBlock => exact (Classical.em _).imp_right (.block h)

/-- **A class is the same under the restriction**, or one of its parts is not. -/
theorem agrees_or_leakyClass (hg : RestrictedBelow levels) (s : ParserState) :
    Agrees (classParts (parseLevel levels) false) s ∨ LeakyClass levels s := by
  by_cases h : LeakyClass levels s
  · exact .inr h
  · exact .inl (agrees_classParts fun x t hpart => (hpart.agrees_or hg).resolve_right h)

theorem restricted_classParts (hg : RestrictedBelow levels) : Restricted (classParts (parseLevel levels) false) s := by
  rcases agrees_or_leakyClass hg s with h | hleaky
  · exact .of_agrees h
  · have hproceeds := (IsParseFunction.classParts false).proceeds (parseLevel_proceeds levels)
    have hgets := GetsTo.of_proceeds (s := s) hproceeds
    exact ⟨hgets, fun hrun => ((hproceeds _).ok hrun).noIn, .inr (.inr ⟨levels, s, hleaky, .rfl s, hgets⟩)⟩

theorem agrees_leaf {kind : Token → NodeKind} : Agrees (leaf kind) s := .next (.finish _ _)

theorem restricted_primary (hg : RestrictedBelow levels) : Restricted (primary (parseLevel levels)) s := by
  have hname : Restricted (if s.kind.isBindingName then namePrimary (parseLevel levels) else throw s.noExpression) s := by
    split
    · exact restricted_namePrimary hg
    · exact .of_agrees (.throw _)
  refine .look (fun _ => rfl) ?_
  cases hk : s.kind with
  | keyword word =>
    rw [hk] at hname
    cases word
    case asyncWord => exact restricted_asyncPrimary hg
    case thisWord => exact .of_agrees agrees_leaf
    case functionWord => exact .of_agrees ((IsParseFunction.functionExpression _ _).agrees _ (.functionExpression _ _ _))
    case classWord =>
      exact (restricted_classParts hg).bind (fun _ _ => .of_agrees (.finish _ _)) fun _ _ _ _ => ⟨_, rfl⟩
    case newWord => exact hg _ s (by simp)
    all_goals exact hname
  | punct mark =>
    rw [hk] at hname
    cases mark
    case openParen => exact restricted_parenthesizedOrArrow hg
    case openBracket => exact .of_agrees (IsParseFunction.arrayLiteral.agrees _ (.arrayLiteral _))
    case openBrace => exact .of_agrees (IsParseFunction.objectLiteral.agrees _ (.objectLiteral _))
    all_goals exact hname
  | string | number | template => exact .of_agrees agrees_leaf
  | reserved =>
    dsimp only
    split
    · exact .of_agrees agrees_leaf
    · exact .of_agrees (.throw _)
  | _ => rw [hk] at hname; exact hname

/-! ### What follows -/

theorem atMark_of_in (h : t.kind = .keyword .inWord) (mark : Punctuator) : t.atMark mark = false := by
  rw [ParserState.atMark, h]
  rfl

theorem suffixes_of_in {start rounds : Nat} {n : Node} (h : t.kind = .keyword .inWord) :
    suffixes g start rounds n t = .ok n t := by
  cases rounds with
  | zero => rfl
  | succ rounds =>
    rw [suffixes, get_run, h]
    rfl

theorem newCalleeTail_of_in {start rounds : Nat} {n : Node} (h : t.kind = .keyword .inWord) :
    newCalleeTail g start rounds n t = .ok n t := by
  cases rounds with
  | zero => rfl
  | succ rounds =>
    rw [newCalleeTail, get_run, h]
    rfl

theorem binaryTail_of_in {start least rounds : Nat} {n : Node} (h : t.kind = .keyword .inWord)
    (hnoIn : t.noIn = true) : binaryTail g start least rounds n t = .ok n t := by
  cases rounds with
  | zero => rfl
  | succ rounds =>
    rw [binaryTail, get_run, h, hnoIn]
    rfl

theorem restricted_newExpression (hg : RestrictedBelow levels) : Restricted (newExpression (parseLevel levels)) s := by
  refine .offset (.behind (.expectKind _) fun _ t => .behind (.nextIf fun _ _ => rfl) fun dot u => ?_)
  split
  · exact .of_agrees ((IsParseFunction.anyWord.agrees levels .anyWord).bind fun _ _ _ => .finish _ _)
  · refine .look (fun _ => rfl) ?_
    have harguments : ∀ (callee : Node) (v : ParserState), Agrees (do
        let callee ← newCalleeTail (parseLevel levels) u.offset u.rounds callee
        let items ← if (← get).atMark .openParen then arguments (parseLevel levels) else pure []
        finish s.offset (.new callee items)) v := by
      intro callee v
      refine ((IsParseFunction.newCalleeTail _ _ _).agrees _ (.newCalleeTail _ _ _ _)).bind fun callee w _ => ?_
      refine .look (fun _ => rfl) ?_
      split
      · exact (IsParseFunction.arguments.agrees _ (.arguments _)).bind fun _ _ _ => .finish _ _
      · exact .finish _ _
    have hstop : ∀ callee : Node, PassesIn (do
        let callee ← newCalleeTail (parseLevel levels) u.offset u.rounds callee
        let items ← if (← get).atMark .openParen then arguments (parseLevel levels) else pure []
        finish s.offset (.new callee items)) := by
      intro callee v hin _
      refine ⟨⟨⟨s.offset, max v.lastStop s.offset⟩, .new callee []⟩, ?_⟩
      rw [bind_of_ok (newCalleeTail_of_in hin), get_run, atMark_of_in hin]
      rfl
    split
    · exact (hg _ _ (by simp)).bind (fun _ _ => .of_agrees (harguments _ _)) hstop
    · exact (restricted_primary hg).bind (fun _ _ => .of_agrees (harguments _ _)) hstop

theorem restricted_leftHandSide (hg : RestrictedBelow levels) : Restricted (leftHandSide (parseLevel levels)) s := by
  refine .look (fun _ => rfl) ?_
  have hrest : ∀ (n : Node) (t : ParserState), Restricted (if n.isArrowFunction then pure n
      else suffixes (parseLevel levels) s.offset s.rounds n) t := by
    intro n t
    split
    · exact .of_agrees (.pure _)
    · exact .of_agrees ((IsParseFunction.suffixes _ _ _).agrees _ (.suffixes _ _ _ _))
  have hstop : ∀ n : Node, PassesIn (if n.isArrowFunction then pure n
      else suffixes (parseLevel levels) s.offset s.rounds n) := by
    intro n t hin _
    split
    · exact ⟨n, rfl⟩
    · exact ⟨n, suffixes_of_in hin⟩
  split
  · exact (restricted_newExpression hg).bind hrest hstop
  · exact (restricted_primary hg).bind hrest hstop

theorem restricted_postfixExpression (hg : RestrictedBelow levels) {start : Nat} :
    Restricted (postfixExpression (parseLevel levels) start) s := by
  refine (restricted_leftHandSide hg).bind (fun n t => ?_) fun n t hin _ => ⟨n, ?_⟩
  · refine .look (fun _ => rfl) ?_
    dsimp only
    split
    · exact .of_agrees (.next (.finish _ _))
    · exact .of_agrees (.pure _)
  · have hupdate : isUpdateOperator t.current.kind = false := by
      rw [show t.current.kind = _ from hin]
      rfl
    rw [get_run, hupdate]
    rfl

theorem restricted_unary (hg : RestrictedBelow levels) : Restricted (unary (parseLevel levels)) s := by
  refine .nested (.look (fun _ => rfl) ?_)
  split
  · exact .next ((hg _ _ (by simp)).bind (fun _ _ => .of_agrees (.pure _)) fun _ _ _ _ => ⟨_, rfl⟩)
  · split
    · exact .next ((hg _ _ (by simp)).bind (fun _ _ => .of_agrees (.pure _)) fun _ _ _ _ => ⟨_, rfl⟩)
    · exact restricted_postfixExpression hg

/-- The restriction matters only in front of an `in`. -/
theorem binaryPrecedence?_noIn {kind : TokenKind} (h : kind ≠ .keyword .inWord) (noIn : Bool) :
    binaryPrecedence? noIn kind = binaryPrecedence? false kind := by
  cases kind with
  | keyword word => cases word <;> first | rfl | exact absurd rfl h
  | _ => rfl

theorem restricted_binaryTail (hg : RestrictedBelow levels) {start least : Nat} : ∀ {rounds : Nat} {n : Node}
    {s : ParserState}, Restricted (binaryTail (parseLevel levels) start least rounds n) s
  | 0, _, _ => .of_agrees (.pure _)
  | rounds + 1, n, s => by
    by_cases hin : s.kind = .keyword .inWord
    · -- the only place where the restriction is looked at
      exact .of_passes (binaryTail_of_in hin rfl) hin
    have hprecedence : ∀ noIn, binaryPrecedence? noIn s.kind = binaryPrecedence? s.noIn s.kind := fun noIn =>
      (binaryPrecedence?_noIn hin noIn).trans (binaryPrecedence?_noIn hin _).symm
    have hkind : ∀ noIn, ParserState.kind { s with noIn } = s.kind := fun _ => rfl
    refine .look (fun noIn => by simp only [hkind, hprecedence]) ?_
    split
    · exact .of_agrees (.pure _)
    · split
      · exact .of_agrees (.pure _)
      · exact .next ((hg _ _ (by simp)).bind (fun _ _ => restricted_binaryTail hg) fun _ _ hin hnoIn =>
          ⟨_, binaryTail_of_in hin hnoIn⟩)

theorem restricted_binary (hg : RestrictedBelow levels) {least : Nat} : Restricted (binary (parseLevel levels) least) s :=
  .look (fun _ => rfl) ((restricted_unary hg).bind (fun _ _ => restricted_binaryTail hg)
    fun _ _ hin hnoIn => ⟨_, binaryTail_of_in hin hnoIn⟩)

theorem restricted_conditional (hg : RestrictedBelow levels) : Restricted (conditional (parseLevel levels)) s := by
  refine .offset ((restricted_binary hg).bind (fun test t => ?_) fun test t hin _ => ⟨test, ?_⟩)
  · refine .behind (.nextIf fun _ _ => rfl) fun asks u => ?_
    split
    · exact .of_agrees (.pure _)
    · refine .behind (.allowIn fun _ => parseLevel_proceeds _ _ _) fun _ v => .behind (.expectKind _) fun _ w => ?_
      exact (hg _ _ (by simp)).bind (fun _ _ => .of_agrees (.pure _)) fun _ _ _ _ => ⟨_, rfl⟩
  · exact bind_of_ok (nextMark_of_false (atMark_of_in hin .question))

theorem restricted_assignment (hg : RestrictedBelow levels) : Restricted (assignment (parseLevel levels)) s := by
  refine .nested (.offset ((restricted_conditional hg).bind (fun target t => ?_) fun target t hin _ => ⟨target, ?_⟩))
  · refine .look (fun _ => rfl) ?_
    dsimp only
    split
    · exact .of_agrees (.pure _)
    · exact .next ((hg _ _ (by simp)).bind (fun _ _ => .of_agrees (.pure _)) fun _ _ _ _ => ⟨_, rfl⟩)
  · rw [get_run, hin]
    rfl

/-- **The restriction ends an expression or makes no difference to it**, but for the classes in it. -/
theorem restricted_parseLevel : ∀ levels : Nat, RestrictedBelow levels
  | 0 => fun q s _ => .of_agrees (.error (.rfl s) rfl rfl)
  | levels + 1 => fun q s hq => by
    have hg := restricted_parseLevel levels
    cases q with
    | assignment => exact restricted_assignment hg
    | unary => exact restricted_unary hg
    | binary least => exact restricted_binary hg
    | leftHandSide => exact restricted_leftHandSide hg
    | newExpression => exact restricted_newExpression hg
    | method isAsync =>
      exact .of_agrees (.offset (((IsParseFunction.functionRest _ _).agrees _ (.functionRest _ _ _)).bind fun _ _ _ =>
        .pure _))
    | statement => exact absurd rfl hq

end Typeahead
