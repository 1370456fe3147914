/-
# Expressions keep the height

An expression reads tokens that are no braces and what stands in brackets. A parameter list that is
tried in vain leaves the parse where it was.

Key theorems: `level_arrowParameters?`, `level_primary`, `level_leftHandSide`, `level_assignment`.
-/
import Typeahead.Proofs.Braces.Literals

namespace Typeahead

open Parse Grammar

variable {tokens : Array Token} {faults : List ParseError} {counts : Nat → Prop} {s : ParserState} {g : Grammar}

/-- A leaf of the tree, of one token. -/
theorem level_leaf {kind : Token → NodeKind} (hk : s.NoBrace) (hbraced : ∀ token, (kind token).isBraced = false)
    (hchildren : ∀ token, (kind token).children = []) :
    Level tokens faults counts (Node.Fine tokens faults) (leaf kind) s :=
  .step (.next hk) fun token _ _ => .finish fun _ => .leaf (hbraced token) (hchildren token)

theorem level_name {start : Nat} (hk : s.NoBrace) : Level tokens faults counts (Node.Fine tokens faults) (do
    let token ← next
    finish start (.identifier token.text)) s :=
  .step (.next hk) fun _ _ _ => .finish fun _ => .leaf rfl rfl

/-- A node of what was read, and what goes on with it. -/
theorem level_node {start : Nat} {kind : NodeKind} {f : Node → Parse Node} (hf : ∀ n u, Level tokens faults counts
    (fun m => n.Fine tokens faults → m.Fine tokens faults) (f n) u) :
    Level tokens faults counts (fun m => (∀ r, Node.Fine tokens faults ⟨r, kind⟩) → m.Fine tokens faults)
      (finish start kind >>= f) s :=
  (Level.finish (R := fun n => (∀ r, Node.Fine tokens faults ⟨r, kind⟩) → n.Fine tokens faults) fun r h => h r).bind
    fun n u _ => (hf n u).mono fun _ h hn hkind => h (hn hkind)

section

variable (hg : g.Levels tokens faults) (hb : BalancedBraces tokens)
include hg hb

/-! ### Arrow functions -/

theorem level_arrowParameters? : Level tokens faults counts
    (fun o => ∀ params ∈ o, AllFine tokens faults params) (arrowParameters? g) s := by
  refine .assume fun hs hc => ?_
  have hlist : Level tokens faults counts (AllFine tokens faults) (parameterList g) s := level_parameterList hg hb
  have hproceeds : Proceeds (parameterList g) s := ⟨fun h => (hlist.ok hs hc h).1, fun h => (hlist.error hs hc h).1⟩
  constructor
  · intro hs hc o t hrun
    have hfollows := (Proceeds.arrowParameters? hproceeds).ok hrun
    rw [arrowParameters?] at hrun
    split at hrun
    · cases hrun
      exact ⟨hfollows, .rfl s, fun _ => ⟨.inl rfl, fun _ h => by cases h⟩⟩
    · split at hrun <;> rename_i hparams
      · split at hrun <;> cases hrun
        · obtain ⟨hf, habove, hrest⟩ := hlist.ok hs hc hparams
          exact ⟨hf, habove, fun ht => (hrest ht).imp_right fun hfine _ h => by cases h; exact hfine⟩
        · exact ⟨hfollows, .rfl s, fun _ => ⟨.inl rfl, fun _ h => by cases h⟩⟩
      · cases hrun
        exact ⟨hfollows, .rfl s, fun _ => ⟨.inl rfl, fun _ h => by cases h⟩⟩
  · intro hs hc e t hrun
    rw [arrowParameters?] at hrun
    split at hrun
    · cases hrun
    · split at hrun
      · split at hrun <;> cases hrun
      · cases hrun

theorem level_arrowRest {start : Nat} {params : List Node} {isAsync : Bool} : Level tokens faults counts
    (fun n => AllFine tokens faults params → n.Fine tokens faults) (arrowRest g start params isAsync) s := by
  refine .step (.expect (by decide) (by decide)) fun _ u _ => .look ?_
  split
  · exact (Level.withNoIn (level_block hg hb)).bind fun _ _ _ => .pure fun hbody hparams =>
      .plain rfl (.append hparams (.single hbody))
  · exact (hg _ _ u).bind fun _ _ _ => .pure fun hbody hparams => .plain rfl (.append hparams (.single hbody))

theorem level_singleParameterArrow {start : Nat} {isAsync : Bool} :
    Level tokens faults counts (Node.Fine tokens faults) (singleParameterArrow g start isAsync) s :=
  .offset (.step .bindingName fun _ _ _ =>
    (Level.finish (R := Node.Fine tokens faults) fun _ => .leaf rfl rfl).bind fun _ _ _ =>
      (level_arrowRest hg hb).mono fun _ h hparam => h (.single hparam))

theorem level_parenthesizedOrArrow {start : Nat} :
    Level tokens faults counts (Node.Fine tokens faults) (parenthesizedOrArrow g start) s := by
  refine (level_arrowParameters? hg hb).bind fun o u _ => ?_
  cases o with
  | some params => exact (level_arrowRest hg hb).mono fun _ h hparams => h (hparams params rfl)
  | none =>
    exact .step (.expect (by decide) (by decide)) fun _ _ _ => (Level.withNoIn (level_innerSequence hg)).bind
      fun _ _ _ => .step (.expect (by decide) (by decide)) fun _ _ _ => .finish fun _ hinner _ =>
        .plain rfl (.single hinner)

theorem level_functionExpression {start : Nat} {isAsync : Bool} :
    Level tokens faults counts (Node.Fine tokens faults) (functionExpression g start isAsync) s := by
  have hend : ∀ (name : Option String) u, Level tokens faults counts (Node.Fine tokens faults)
      (do return functionNode start (← functionRest g name isAsync)) u := fun _ _ =>
    (level_functionRest hg hb).bind fun _ _ _ => .pure fun h => .plain rfl h
  refine .step (.expectKind (by simp) (by simp)) fun _ u _ => .step (.nextMark (by decide) (by decide)) fun _ v _ =>
    .look ?_
  split
  · exact .step (.map (Q := fun _ => True) .bindingName fun _ _ => trivial) fun name w _ => hend name w
  · exact hend none v

/-! ### Primary expressions -/

theorem level_asyncArrowParameters? (hk : s.NoBrace) : Level tokens faults counts
    (fun o => ∀ params ∈ o, AllFine tokens faults params) (asyncArrowParameters? g) s := by
  have hboth : Level tokens faults counts (fun o => ∀ params ∈ o, AllFine tokens faults params)
      (next >>= fun _ => arrowParameters? g) s := .step (.next hk) fun _ _ _ => level_arrowParameters? hg hb
  constructor
  · intro hs hc o t hrun
    rw [asyncArrowParameters?] at hrun
    cases hparams : arrowParameters? g s.advance with
    | error e u => simp [hparams] at hrun
    | ok r u =>
      have hread := hboth.ok hs hc (show (next >>= fun _ => arrowParameters? g) s = .ok r u from hparams)
      cases r <;> simp only [hparams] at hrun <;> cases hrun
      · have hback : s.Follows { u with stream := s.stream } :=
          { hread.1 with
            tokens := rfl
            position := Nat.le_refl _
            bound := Nat.le_max_left .. }
        exact ⟨hback, .rfl s, fun _ => ⟨.inl rfl, fun _ h => by cases h⟩⟩
      · exact hread
  · intro hs hc e t hrun
    rw [asyncArrowParameters?] at hrun
    cases hparams : arrowParameters? g s.advance with
    | error e' u =>
      simp only [hparams] at hrun
      cases hrun
      exact hboth.error hs hc (show (next >>= fun _ => arrowParameters? g) s = .error e t from hparams)
    | ok r u => cases r <;> simp [hparams] at hrun

omit hg hb in
/-- Without parameters the parse is back at the `async`. -/
theorem stream_of_asyncArrowParameters {t : ParserState} (h : asyncArrowParameters? g s = .ok none t) :
    t.stream = s.stream := by
  rw [asyncArrowParameters?] at h
  cases hparams : arrowParameters? g s.advance with
  | error e u => simp [hparams] at h
  | ok r u =>
    cases r <;> simp only [hparams] at h <;> cases h
    rfl

theorem level_asyncPrimary (hk : s.kind = .keyword .asyncWord) :
    Level tokens faults counts (Node.Fine tokens faults) (asyncPrimary g) s := by
  have hplain : s.NoBrace := Level.noBrace_of_kind hk (by simp) (by simp)
  refine .look ?_
  dsimp only
  split
  · exact level_name hplain
  · split
    · exact .step (.next hplain) fun _ _ _ => level_functionExpression hg hb
    · split
      · exact .step (.next hplain) fun _ _ _ => level_singleParameterArrow hg hb
      · split
        · refine (level_asyncArrowParameters? hg hb hplain).bind fun o u hu => ?_
          cases o with
          | some params => exact (level_arrowRest hg hb).mono fun _ h hparams => h (hparams params rfl)
          | none =>
            refine (level_name ?_).mono fun _ h _ => h
            rw [ParserState.NoBrace, ParserState.kind, ParserState.current, stream_of_asyncArrowParameters hu]
            exact hplain
        · exact level_name hplain

theorem level_namePrimary (hk : s.NoBrace) : Level tokens faults counts (Node.Fine tokens faults) (namePrimary g) s := by
  refine .look ?_
  split
  · exact level_singleParameterArrow hg hb
  · exact .step (.next hk) fun _ _ _ => .finish fun _ => .leaf rfl rfl

theorem level_primary : Level tokens faults counts (Node.Fine tokens faults) (primary g) s := by
  have hname : Level tokens faults counts (Node.Fine tokens faults)
      (if s.kind.isBindingName then namePrimary g else throw s.noExpression) s := by
    split
    · rename_i h
      exact level_namePrimary hg hb (Level.noBrace_of_atBindingName h)
    · exact .fail rfl
  refine .look ?_
  cases hk : s.kind with
  | punct mark =>
    rw [hk] at hname
    cases mark
    case openParen => exact level_parenthesizedOrArrow hg hb
    case openBracket => exact level_arrayLiteral hg
    case openBrace => exact level_objectLiteral hg hb
    all_goals exact hname
  | keyword word =>
    rw [hk] at hname
    cases word
    case asyncWord => exact level_asyncPrimary hg hb hk
    case thisWord => exact level_leaf (Level.noBrace_of_kind hk (by simp) (by simp)) (fun _ => rfl) fun _ => rfl
    case functionWord => exact level_functionExpression hg hb
    case classWord =>
      exact (level_classParts hg hb).bind fun parts _ _ => .finish fun _ h =>
        .of_own (fun _ h => by cases h) (fun r hr => by cases hr; exact h.body) h.pieces
    case newWord => exact hg _ _ s
    all_goals exact hname
  | string | number =>
    exact .step (.next (Level.noBrace_of_kind hk (by simp) (by simp))) fun _ _ _ => .finish (leaf_literalOfToken _)
  | template => exact level_leaf (Level.noBrace_of_kind hk (by simp) (by simp)) (fun _ => rfl) fun _ => rfl
  | reserved =>
    dsimp only
    split
    · rename_i kind hkind
      have hleaf : kind.isBraced = false ∧ kind.children = [] := by
        unfold reservedExpression? at hkind
        split at hkind <;> cases hkind <;> exact ⟨rfl, rfl⟩
      exact level_leaf (Level.noBrace_of_kind hk (by simp) (by simp)) (fun _ => hleaf.1) fun _ => hleaf.2
    · exact .fail rfl
  | _ =>
    rw [hk] at hname
    exact hname

/-! ### Suffixes -/

omit hb in
theorem level_newCalleeTail {start : Nat} : ∀ (rounds : Nat) (callee : Node) (s : ParserState), Level tokens faults counts
    (fun n => callee.Fine tokens faults → n.Fine tokens faults) (newCalleeTail g start rounds callee) s
  | 0, _, _ => .pure id
  | rounds + 1, callee, s => by
    have hmember : ∀ property computed u, Level tokens faults counts
        (fun n => property.Fine tokens faults → callee.Fine tokens faults → n.Fine tokens faults) (do
          newCalleeTail g start rounds (← memberNode start callee property computed false)) u :=
      fun property computed u => (level_node (level_newCalleeTail rounds)).mono
        fun _ h hproperty hcallee => h fun _ => .plain rfl (.cons hcallee (.single hproperty))
    rw [newCalleeTail]
    refine .look ?_
    split
    · rename_i hk
      exact .step (.next (Level.noBrace_of_kind hk (by simp) (by simp))) fun _ u _ => level_memberName.bind
        fun property v _ => hmember property false v
    · exact (level_computedKey hg).bind fun property v _ => hmember property true v
    · exact .pure id

theorem level_newExpression : Level tokens faults counts (Node.Fine tokens faults) (newExpression g) s := by
  have hrest : ∀ callee u start v, Level tokens faults counts
      (fun n => callee.Fine tokens faults → n.Fine tokens faults) (do
        let callee ← newCalleeTail g (ParserState.offset u) u.rounds callee
        let items ← if (← get).atMark .openParen then arguments g else pure []
        finish start (.new callee items)) v := by
    intro callee u start v
    refine (level_newCalleeTail hg _ callee v).bind fun tail w _ => .look ?_
    split
    · exact (level_arguments hg).bind fun _ _ _ => .finish fun _ hitems htail hcallee =>
        .plain rfl (.cons (htail hcallee) hitems)
    · exact .finish fun _ htail hcallee => .plain rfl (.cons (htail hcallee) .nil)
  refine .offset (.step (.expectKind (by simp) (by simp)) fun _ u _ =>
    .step (.nextMark (by decide) (by decide)) fun b v _ => ?_)
  split
  · exact .step .anyWord fun _ _ _ => .finish fun _ => .leaf rfl rfl
  · refine .look ?_
    dsimp only
    split
    · exact (hg _ _ v).bind fun callee w _ => hrest callee v _ w
    · exact (level_primary hg hb).bind fun callee w _ => hrest callee v _ w

omit hb in
theorem level_suffixes {start : Nat} : ∀ (rounds : Nat) (expression : Node) (s : ParserState), Level tokens faults counts
    (fun n => expression.Fine tokens faults → n.Fine tokens faults) (suffixes g start rounds expression) s
  | 0, _, _ => .pure id
  | rounds + 1, expression, s => by
    have hmember : ∀ property computed chained u, Level tokens faults counts
        (fun n => property.Fine tokens faults → expression.Fine tokens faults → n.Fine tokens faults) (do
          suffixes g start rounds (← memberNode start expression property computed chained)) u :=
      fun property computed chained u => (level_node (level_suffixes rounds)).mono
        fun _ h hproperty hexpression => h fun _ => .plain rfl (.cons hexpression (.single hproperty))
    have hcall : ∀ items chained u, Level tokens faults counts
        (fun n => AllFine tokens faults items → expression.Fine tokens faults → n.Fine tokens faults) (do
          suffixes g start rounds (← finish start (.call expression items chained))) u :=
      fun items chained u => (level_node (level_suffixes rounds)).mono
        fun _ h hitems hexpression => h fun _ => .plain rfl (.cons hexpression hitems)
    rw [suffixes]
    refine .look ?_
    split
    · rename_i hk
      exact .step (.next (Level.noBrace_of_kind hk (by simp) (by simp))) fun _ u _ => level_memberName.bind
        fun property v _ => hmember property false false v
    · rename_i hk
      refine .step (.next (Level.noBrace_of_kind hk (by simp) (by simp))) fun _ u _ => .look ?_
      split
      · exact (level_arguments hg).bind fun items v _ => hcall items true v
      · exact (level_computedKey hg).bind fun property v _ => hmember property true true v
      · exact level_memberName.bind fun property v _ => hmember property false true v
    · exact (level_computedKey hg).bind fun property v _ => hmember property true false v
    · exact (level_arguments hg).bind fun items v _ => hcall items false v
    · rename_i hk
      exact (level_leaf (Level.noBrace_of_kind hk (by simp) (by simp)) (fun _ => rfl) fun _ => rfl).bind
        fun template v _ => (hcall [template] false v).mono fun _ h htemplate => h (.single htemplate)
    · exact .pure id

theorem level_leftHandSide : Level tokens faults counts (Node.Fine tokens faults) (leftHandSide g) s := by
  have hrest : ∀ expression start rounds u, Level tokens faults counts
      (fun n => expression.Fine tokens faults → n.Fine tokens faults)
      (if expression.isArrowFunction then pure expression else suffixes g start rounds expression) u := by
    intro expression start rounds u
    split
    · exact .pure id
    · exact level_suffixes hg rounds expression u
  refine .look ?_
  split
  · exact (level_newExpression hg hb).bind fun expression u _ => hrest expression _ _ u
  · exact (level_primary hg hb).bind fun expression u _ => hrest expression _ _ u

/-! ### Operators -/

omit hg hb in
theorem noBrace_of_isUpdateOperator (h : isUpdateOperator s.kind = true) : s.NoBrace := by
  rw [isUpdateOperator, Bool.or_eq_true, beq_iff_eq, beq_iff_eq] at h
  rcases h with hk | hk <;> exact Level.noBrace_of_kind hk (by simp) (by simp)

theorem level_postfixExpression {start : Nat} :
    Level tokens faults counts (Node.Fine tokens faults) (postfixExpression g start) s := by
  refine (level_leftHandSide hg hb).bind fun expression u _ => .look ?_
  dsimp only
  split
  · rename_i h
    rw [Bool.and_eq_true] at h
    exact .step (.next (noBrace_of_isUpdateOperator h.1)) fun _ _ _ => .finish fun _ hexpression =>
      .plain rfl (.single hexpression)
  · exact .pure id

omit hg hb in
theorem noBrace_of_unaryOperator {operator : UnaryOperator} (h : unaryOperator? s.current = some operator) :
    s.NoBrace := by
  constructor <;> intro hk <;> rw [unaryOperator?, show s.current.kind = _ from hk] at h <;> cases h

theorem level_unary : Level tokens faults counts (Node.Fine tokens faults) (unary g) s := by
  refine .nested ?_
  generalize ({ s with depth := s.depth + 1 } : ParserState) = s
  refine .look ?_
  split
  · rename_i hoperator
    exact .step (.next (noBrace_of_unaryOperator hoperator)) fun _ u _ => (hg _ _ u).bind fun _ _ _ =>
      .pure fun h => .plain rfl (.single h)
  · split
    · rename_i h
      exact .step (.next (noBrace_of_isUpdateOperator h)) fun _ u _ => (hg _ _ u).bind fun _ _ _ =>
        .pure fun h => .plain rfl (.single h)
    · exact level_postfixExpression hg hb

omit hg hb in
theorem noBrace_of_binaryPrecedence {precedence : Nat} (h : binaryPrecedence? s.noIn s.kind = some precedence) :
    s.NoBrace := by
  constructor <;> intro hk <;> rw [hk] at h <;> cases h

omit hb in
theorem level_binaryTail {start least : Nat} : ∀ (rounds : Nat) (left : Node) (s : ParserState), Level tokens faults counts
    (fun n => left.Fine tokens faults → n.Fine tokens faults) (binaryTail g start least rounds left) s
  | 0, _, _ => .pure id
  | rounds + 1, left, s => by
    rw [binaryTail]
    refine .look ?_
    split
    · exact .pure id
    · rename_i hp
      split
      · exact .pure id
      · refine .step (.next (noBrace_of_binaryPrecedence hp)) fun _ u _ => (hg _ _ u).bind fun right v _ =>
          (level_binaryTail rounds _ v).mono fun _ h hright hleft => h ?_
        have hboth : AllFine tokens faults [left, right] := .cons hleft (.single hright)
        rw [binaryNode]
        split <;> exact .plain rfl hboth

theorem level_binary {least : Nat} : Level tokens faults counts (Node.Fine tokens faults) (binary g least) s :=
  .look ((level_unary hg hb).bind fun left u _ => level_binaryTail hg _ left u)

theorem level_conditional : Level tokens faults counts (Node.Fine tokens faults) (conditional g) s := by
  refine .offset ((level_binary hg hb).bind fun test u _ => .step (.nextMark (by decide) (by decide)) fun b v _ => ?_)
  split
  · exact .pure id
  · exact (Level.withNoIn (hg _ _ _)).bind fun _ _ _ => .step (.expect (by decide) (by decide)) fun _ w _ =>
      (hg _ _ w).bind fun _ _ _ => .pure fun halternate hconsequent htest =>
        .plain rfl (.cons htest (.cons hconsequent (.single halternate)))

omit hg hb in
theorem noBrace_of_isAssignment (h : s.kind.isAssignment = true) : s.NoBrace := by
  constructor <;> intro hk <;> rw [hk] at h <;> cases h

theorem level_assignment : Level tokens faults counts (Node.Fine tokens faults) (assignment g) s := by
  refine .nested ?_
  generalize ({ s with depth := s.depth + 1 } : ParserState) = s
  refine .offset ((level_conditional hg hb).bind fun target u _ => .look ?_)
  dsimp only
  split
  · exact .pure id
  · rename_i h
    rw [Bool.not_eq_true', Bool.not_eq_false] at h
    exact .step (.next (noBrace_of_isAssignment h)) fun _ v _ => (hg _ _ v).bind fun _ _ _ =>
      .pure fun hvalue htarget => .plain rfl (.cons htarget (.single hvalue))

end

end Typeahead
