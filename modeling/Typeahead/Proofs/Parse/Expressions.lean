/-
# Expressions are built

The productions of expressions are built from the steps of the grammar, wherever they start.
Where `async` stands before a parenthesis the choice is between the parameters of an arrow
function and the arguments of a call, and is made once for the name and what follows it.

Key definition: `arrowBody`.
Key theorems: `asyncPrimary_bind`, `begins_leftHandSide`, `begins_assignment`.
-/
import Typeahead.Proofs.Parse.Items

namespace Typeahead

open Parse Grammar Built

variable {α : Type} {last : Nat} {s : ParserState}

/-! ### Arrow functions -/

/-- The body of an arrow function, after its arrow. -/
def Grammar.arrowBody (g : Grammar) (start : Nat) (isAsync : Bool) (params : List Node) : Parse Node := do
  let body ← if (← get).atMark .openBrace then allowIn (block g) else g .assignment
  return ⟨⟨start, body.stop⟩, .arrowFunction params body isAsync⟩

theorem arrowRest_eq (g : Grammar) (start : Nat) (isAsync : Bool) (params : List Node) :
    arrowRest g start params isAsync = Parse.expect .arrow >>= fun _ => arrowBody g start isAsync params :=
  rfl

theorem built_arrowBody (start : Nat) (isAsync : Bool) (params : List Node) :
    Built last s (Node.Open last) fun g => arrowBody g start isAsync params :=
  look (fun _ _ _ _ _ => rfl) (iteBind (fun _ => .withNoIn _ begins_block.built) (fun _ => .call _)
    (fun _ _ => .pure _) (.pure fun _ h => .of_child (by simp [NodeKind.children]) h))

theorem begins_parenthesizedOrArrow (start : Nat) :
    Begins last s (Node.Open last) fun g => parenthesizedOrArrow g start :=
  .chooseArrow itemized_innerSequence (fun _ => .weaken (fun _ _ => trivial) built_innerSequence)
    built_parametersFrom (fun _ _ => finish ..) fun _ _ => built_arrowBody ..

theorem ParserState.current_advance (s : ParserState) : s.advance.current = s.following := by
  have hpos := s.stream.nonempty
  simp only [current, advance, following, TokenStream.peek, TokenStream.peekAhead,
    TokenStream.advance]
  split
  · rename_i h
    congr 1
  · rename_i h
    congr 1
    omega

theorem ParserState.following_advance (s : ParserState) :
    s.advance.following = s.stream.peekAhead 2 := by
  have hpos := s.stream.nonempty
  simp only [advance, following, TokenStream.peekAhead, TokenStream.advance]
  split
  · rename_i h
    congr 1
  · rename_i h
    congr 1
    omega

theorem not_isStuck_of_atBindingName (h : s.atBindingName = true) : ¬ s.IsStuck := by
  rw [ParserState.atBindingName] at h
  rintro (h' | h') <;> rw [h'] at h <;> cases h

theorem begins_singleParameterArrow (start : Nat) (isAsync : Bool) (hs : s.atBindingName = true)
    (ha : s.following.kind = .punct .arrow) :
    Begins last s (Node.Open last) fun g => singleParameterArrow g start isAsync := by
  have harrow : s.advance.kind = .punct .arrow := by
    rw [ParserState.kind, s.current_advance, ha]
  refine .same (y := fun g => (Parse.next >>= fun _ => Parse.next) >>= fun _ => arrowBody g start isAsync
    [⟨⟨s.offset, max s.advance.lastStop s.offset⟩, .parameter s.current.text none none false⟩])
    (fun g t ht => ?_) (.step (.nextArrow (not_isStuck_of_atBindingName hs) harrow)
      fun _ _ => built_arrowBody ..)
  obtain ⟨stream, d, r, noIn, fs, ra, fa⟩ := t
  obtain ⟨rfl, rfl⟩ := ht
  have hname : Parse.bindingName ⟨s.stream, d, r, s.noIn, fs, ra, fa⟩ =
      .ok s.current.text (ParserState.advance ⟨s.stream, d, r, s.noIn, fs, ra, fa⟩) := if_pos hs
  have hmark : Parse.expect .arrow (ParserState.advance ⟨s.stream, d, r, s.noIn, fs, ra, fa⟩) =
      .ok s.advance.current (ParserState.advance (.advance ⟨s.stream, d, r, s.noIn, fs, ra, fa⟩)) :=
    expect_of_atMark (beq_iff_eq.2 harrow)
  exact (bind_of_ok hname).trans (bind_of_ok hmark)

theorem begins_functionExpression (start : Nat) (isAsync : Bool) :
    Begins last s (Node.Open last) fun g => functionExpression g start isAsync :=
  .step (.expectKind (by simp) (by simp)) fun _ _ => step (nextMark (by simp)) fun _ _ =>
    look (fun _ _ _ _ _ => rfl) (iteBind (O := fun _ => False) (fun _ => map bindingName fun _ h => h)
      (fun _ => .pure _) (fun _ _ => .bind (begins_functionRest _ _).built (fun _ _ => .pure _)
        (.pure fun _ h => h.node)) .closed)

theorem begins_leaf {O : Node → Prop} (kind : Token → NodeKind) (hs : ¬ s.IsStuck) :
    Begins last s O fun _ => leaf kind :=
  .step (.read hs) fun _ _ => finish ..

theorem begins_namePrimary (hs : s.atBindingName = true) :
    Begins last s (Node.Open last) namePrimary :=
  .look (fun _ _ _ _ _ => rfl) (.ite
    (fun h => begins_singleParameterArrow _ _ hs (beq_iff_eq.1 (Bool.and_eq_true_iff.1 h).1))
    fun _ => .step (.read (not_isStuck_of_atBindingName hs)) fun _ _ => finish ..)

section

variable {g : Grammar}

/-- A name other than `async` is read as a name. -/
theorem primary_eq_namePrimary (h : s.atBindingName = true) (hasync : s.kind ≠ .keyword .asyncWord) :
    primary g s = namePrimary g s := by
  rw [ParserState.atBindingName] at h
  rw [primary, get_run]
  cases hk : s.kind with
  | keyword word =>
    rw [hk] at h hasync
    cases word
    case asyncWord => exact absurd rfl hasync
    all_goals first | rfl | cases h
  | identifier => rfl
  | _ => rw [hk] at h; cases h

/-- A name that no arrow follows is an expression by itself. -/
theorem namePrimary_of_not_arrow (h : isArrow s.following = false) : namePrimary g s = .ok
    ⟨⟨s.current.start, max s.advance.lastStop s.current.start⟩, .identifier s.current.text⟩ s.advance := by
  rw [namePrimary, get_run, h]
  rfl

end

/-! ### `async` -/

/-- At `async` and a parenthesis on its line. -/
def ParserState.AtAsyncCall (s : ParserState) : Prop :=
  s.kind = .keyword .asyncWord ∧ s.following.afterLineBreak = false ∧
    s.following.kind = .punct .openParen

/-- The name that `async` is, where it is one. -/
def ParserState.asyncName (s : ParserState) : Node :=
  ⟨⟨s.offset, max s.advance.lastStop s.offset⟩, .identifier s.current.text⟩

theorem arrowParameters?_none {g : Grammar} {s t : ParserState}
    (h : arrowParameters? g s = .ok none t) : t.stream = s.stream := by
  rw [arrowParameters?] at h
  split at h
  · cases h
    rfl
  · split at h
    · split at h <;> cases h
      rfl
    · cases h
      rfl

theorem arrowParameters?_ok (g : Grammar) (s : ParserState) :
    ∃ r t, arrowParameters? g s = .ok r t := by
  rw [arrowParameters?]
  split
  · exact ⟨_, _, rfl⟩
  · split
    · split <;> exact ⟨_, _, rfl⟩
    · exact ⟨_, _, rfl⟩

theorem arguments_bind (g : Grammar) (rest : List Node → Parse α) : arguments g >>= rest = (do
    let _ ← Parse.expect .openParen
    let items ← allowIn (argumentItems g)
    let _ ← Parse.expect .closeParen
    rest items) := by
  simp only [arguments, argumentItems, bind_assoc, pure_bind]

/-- Before a parenthesis `async` and what follows is a choice between an arrow function and
a call. -/
theorem asyncPrimary_bind {g : Grammar} {k : Node → Parse α} {rest : List Node → Parse α}
    (hs : s.AtAsyncCall)
    (hk : ∀ t : ParserState, t.kind = .punct .openParen → k s.asyncName t = (arguments g >>= rest) t) :
    (asyncPrimary g >>= k) s = chooseArrow g (argumentItems g) rest
      (fun params => arrowBody g s.offset true params >>= k) s.advance := by
  obtain ⟨-, hline, hparen⟩ := hs
  have hprimary : ∀ r u, asyncArrowParameters? g s = .ok r u → asyncPrimary g s =
      r.elim (Parse.next >>= fun token => Parse.finish s.offset (.identifier token.text))
        (fun params => arrowRest g s.offset params true) u := by
    intro r u hr
    have hname : (TokenKind.punct .openParen).isBindingName = false := rfl
    simp only [asyncPrimary, get_run, hline, hparen, hname, Bool.false_and, Bool.false_eq_true,
      ↓reduceIte, reduceCtorEq]
    rw [bind_of_ok hr]
    cases r <;> rfl
  obtain ⟨r, t, hr⟩ := arrowParameters?_ok g s.advance
  cases r with
  | some params =>
    have hasync : asyncArrowParameters? g s = .ok (some params) t := by
      rw [asyncArrowParameters?, hr]
    rw [bind_of_eq (hprimary _ _ hasync), chooseArrow, bind_of_ok hr]
    dsimp only [Option.elim_some]
    rw [arrowRest_eq, bind_assoc]
  | none =>
    have ht : t.stream = s.advance.stream := arrowParameters?_none hr
    have hasync : asyncArrowParameters? g s = .ok none { t with stream := s.stream } := by
      rw [asyncArrowParameters?, hr]
    have hname : asyncPrimary g s = .ok s.asyncName t := by
      rw [hprimary _ _ hasync]
      obtain ⟨stream, d, r, noIn, fs, ra, fa⟩ := t
      cases ht
      rfl
    have hk' : t.kind = .punct .openParen := by
      rw [ParserState.kind, ParserState.current, ht]
      exact (congrArg Token.kind s.current_advance).trans hparen
    rw [bind_of_ok hname, hk t hk', chooseArrow, bind_of_ok hr, arguments_bind]

/-- Before a parenthesis `async` is the name of what is called, or begins an arrow function. -/
theorem begins_asyncCall {O : α → Prop} {k : Node → Grammar → Parse α}
    {r : List Node → Grammar → Parse α} (hs : s.AtAsyncCall)
    (hk : ∀ g t, t.kind = .punct .openParen →
      k s.asyncName g t = (arguments g >>= fun items => r items g) t)
    (hr : ∀ items t, Built last t O (r items)) (hcommit : ∀ n t, Built last t O (k n))
    (hO : KeepsOpen last (Node.Open last) O k) :
    Begins last s O fun g => asyncPrimary g >>= fun n => k n g := by
  have hstuck : ¬ s.IsStuck := ParserState.not_isStuck hs.1 (by simp) (by simp)
  have hitems : ∀ t, Built last t (fun _ => True) argumentItems := fun t =>
    .weaken (fun _ _ => trivial) (built_items fun _ => built_spreadOrAssignment)
  refine .same (y := fun g => Parse.next >>= fun _ => chooseArrow g (argumentItems g)
    (fun items => r items g) fun params => arrowBody g s.offset true params >>= fun n => k n g)
    (fun g t ht => ?_) (.next hstuck (.chooseArrow itemized_argumentItems hitems built_parametersFrom
      hr fun params t => .bind (built_arrowBody ..) hcommit hO))
  obtain ⟨stream, d, r, noIn, fs, ra, fa⟩ := t
  obtain ⟨rfl, rfl⟩ := ht
  exact asyncPrimary_bind (s := ⟨s.stream, d, r, s.noIn, fs, ra, fa⟩) hs (hk g)

/-- Elsewhere `async` is a name, or begins a function or an arrow function of one parameter. -/
theorem begins_asyncPrimary (hs : s.kind = .keyword .asyncWord) (hcall : ¬ s.AtAsyncCall) :
    Begins last s (Node.Open last) asyncPrimary := by
  have hstuck : ¬ s.IsStuck := ParserState.not_isStuck hs (by simp) (by simp)
  have hname : Begins last s (Node.Open last) fun _ => (do
      let token ← Parse.next
      Parse.finish s.offset (.identifier token.text)) := .step (.read hstuck) fun _ _ => finish ..
  refine .look (fun _ _ _ _ _ => rfl) (.ite (fun _ => hname) fun hline => .ite (fun _ => ?_) fun _ =>
    .ite (fun h => ?_) fun _ => .ite (fun hparen => ?_) fun _ => hname)
  · exact .step (.read hstuck) fun _ _ => (begins_functionExpression _ _).built
  · rw [Bool.and_eq_true, beq_iff_eq] at h
    refine .next hstuck (begins_singleParameterArrow _ _ ?_ ?_).built
    · rw [ParserState.atBindingName, ParserState.kind, s.current_advance]
      exact h.1
    · rw [s.following_advance]
      exact h.2
  · exact absurd ⟨hs, by simpa using hline, hparen⟩ hcall

/-! ### Expressions -/

theorem begins_primary (hcall : ¬ s.AtAsyncCall) (hnew : s.kind ≠ .keyword .newWord) :
    Begins last s (Node.Open last) primary := by
  have hleaf : ∀ kind : TokenKind, kind ≠ .endOfInput → kind ≠ .punct .arrow → s.kind = kind →
      ∀ f : Token → NodeKind, Begins last s (Node.Open last) fun _ => leaf f :=
    fun kind he ha hk f => begins_leaf f (ParserState.not_isStuck hk he ha)
  have hname : ∀ kind : TokenKind, s.kind = kind → Begins last s (Node.Open last) fun g =>
      if kind.isBindingName then namePrimary g else throw s.noExpression :=
    fun kind hk => .ite (fun h => begins_namePrimary (by rw [ParserState.atBindingName, hk]; exact h))
      fun _ => .fail _ rfl
  refine .look (fun _ _ _ _ _ => rfl) ?_
  cases hk : s.kind with
  | punct mark =>
    cases mark
    case openParen => exact begins_parenthesizedOrArrow _
    case openBracket => exact begins_arrayLiteral
    case openBrace => exact begins_objectLiteral
    all_goals exact hname _ hk
  | keyword word =>
    cases word
    case asyncWord => exact begins_asyncPrimary hk hcall
    case thisWord => exact hleaf _ (by simp) (by simp) hk _
    case functionWord => exact begins_functionExpression _ _
    case classWord =>
      exact .bind (begins_classParts _) (fun _ _ => finish ..) (.finish fun parts r h => by
        rcases h with h | h
        · exact .of_children h
        · exact .of_classBody rfl h)
    case newWord => exact absurd hk hnew
    all_goals exact hname _ hk
  | string | number | template => exact hleaf _ (by simp) (by simp) hk _
  | reserved =>
    dsimp only
    cases reservedExpression? s.current.text with
    | some kind => exact hleaf _ (by simp) (by simp) hk _
    | none => exact .fail _ rfl
  | _ => exact hname _ hk

/-- At `new` a primary expression is a `new` expression. -/
theorem built_primary (hcall : ¬ s.AtAsyncCall) : Built last s (Node.Open last) primary := by
  by_cases hnew : s.kind = .keyword .newWord
  · exact .same (fun g t ht => by rw [primary, get_run, ht.kind, hnew]) (.call .newExpression)
  · exact (begins_primary hcall hnew).built

/-- A primary expression and what follows it, which after a name are the arguments of a call
wherever there is a parenthesis. -/
theorem begins_primaryThen {O : α → Prop} {k : Node → Grammar → Parse α}
    {r : List Node → Grammar → Parse α} (hnew : ¬ s.atKeyword .newWord = true)
    (hk : ∀ g t, t.kind = .punct .openParen →
      k s.asyncName g t = (arguments g >>= fun items => r items g) t)
    (hr : ∀ items t, Built last t O (r items)) (hthen : ∀ n t, Built last t O (k n))
    (hO : KeepsOpen last (Node.Open last) O k) :
    Begins last s O fun g => primary g >>= fun n => k n g := by
  by_cases hs : s.AtAsyncCall
  · refine .same (fun g t ht => bind_of_eq ?_) (begins_asyncCall hs hk hr hthen hO)
    rw [primary, get_run, ht.kind, hs.1]
  · exact .bind (begins_primary hs fun h => hnew (beq_iff_eq.2 h)) hthen hO

theorem built_suffixes (start : Nat) : ∀ rounds expression s,
    Built last s (Node.Open last) fun g => suffixes g start rounds expression
  | 0, expression, _ => .pure expression
  | rounds + 1, expression, s => by
    have hmember : ∀ computed optional t, Built last t (Node.Open last) fun g =>
        computedKey g >>= fun property => memberNode start expression property computed optional >>=
          suffixes g start rounds := fun computed optional t =>
      step built_computedKey fun _ _ => step (finish ..) fun _ _ => built_suffixes ..
    have hname : ∀ computed optional t, Built last t (Node.Open last) fun g =>
        memberName >>= fun property => memberNode start expression property computed optional >>=
          suffixes g start rounds := fun computed optional t =>
      step built_memberName fun _ _ => step (finish ..) fun _ _ => built_suffixes ..
    have hcall : ∀ optional t, Built last t (Node.Open last) fun g =>
        arguments g >>= fun items => Parse.finish start (.call expression items optional) >>=
          suffixes g start rounds := fun optional t =>
      step built_arguments fun _ _ => step (finish ..) fun _ _ => built_suffixes ..
    refine look (fun _ _ _ _ _ => rfl) ?_
    cases hk : s.kind with
    | punct mark =>
      have hread : mark ≠ .arrow → ¬ s.IsStuck := fun h =>
        ParserState.not_isStuck hk (by simp) (by simpa using h)
      cases mark
      case dot => exact step (read (hread (by simp))) fun _ _ => hname ..
      case optionalDot =>
        refine step (read (hread (by simp))) fun _ t => look (fun _ _ _ _ _ => rfl) ?_
        cases t.kind with
        | punct mark =>
          cases mark
          case openParen => exact hcall ..
          case openBracket => exact hmember ..
          all_goals exact hname ..
        | _ => exact hname ..
      case openBracket => exact hmember ..
      case openParen => exact hcall ..
      all_goals exact .pure _
    | template =>
      exact step (begins_leaf _ (ParserState.not_isStuck hk (by simp) (by simp))).built fun _ _ =>
        step (finish ..) fun _ _ => built_suffixes ..
    | _ => exact .pure _

theorem built_newCalleeTail (start : Nat) : ∀ rounds callee s,
    Built last s (Node.Open last) fun g => newCalleeTail g start rounds callee
  | 0, callee, _ => .pure callee
  | rounds + 1, callee, s => by
    refine look (fun _ _ _ _ _ => rfl) ?_
    cases hk : s.kind with
    | punct mark =>
      cases mark
      case dot =>
        exact step (read (ParserState.not_isStuck hk (by simp) (by simp))) fun _ _ =>
          step built_memberName fun _ _ => step (finish ..) fun _ _ => built_newCalleeTail ..
      case openBracket =>
        exact step built_computedKey fun _ _ => step (finish ..) fun _ _ => built_newCalleeTail ..
      all_goals exact .pure _
    | _ => exact .pure _

theorem newCalleeTail_stops {g : Grammar} {start rounds : Nat} {callee : Node} {t : ParserState}
    (h : t.kind = .punct .openParen ∨ t.kind = .endOfInput) :
    newCalleeTail g start rounds callee t = .ok callee t := by
  cases rounds with
  | zero => rfl
  | succ rounds =>
    rw [newCalleeTail, get_run]
    rcases h with h | h <;> rw [h] <;> rfl

theorem begins_newExpression : Begins last s (Node.Open last) newExpression := by
  refine .offset (.step (.expectKind (by simp) (by simp)) fun _ _ => step (nextMark (by simp)) fun _ t => ?_)
  refine ite (fun _ => step anyWord fun _ _ => finish ..) fun _ => look (fun _ _ _ _ _ => rfl) ?_
  have hopen : KeepsOpen last (Node.Open last) (Node.Open last) fun (callee : Node) g => get >>= fun v =>
      if v.atMark .openParen then arguments g >>= fun items => Parse.finish s.offset (.new callee items)
      else pure [] >>= fun items => Parse.finish s.offset (.new callee items) := by
    refine .look fun v hv => ?_
    simp only [v.atMark_of_end hv, Bool.false_eq_true, ↓reduceIte, pure_bind]
    exact .finish fun _ _ h => .of_child (by simp [NodeKind.children]) h
  have hthen : ∀ (callee : Node) u, Built last u (Node.Open last) fun g =>
      newCalleeTail g t.offset t.rounds callee >>= fun callee => get >>= fun v =>
        if v.atMark .openParen then arguments g >>= fun items => Parse.finish s.offset (.new callee items)
        else pure [] >>= fun items => Parse.finish s.offset (.new callee items) := fun callee u =>
    .bind (built_newCalleeTail ..) (fun callee v => look (fun _ _ _ _ _ => rfl)
      (iteBind (fun _ => built_arguments) (fun _ => .pure _) (fun _ _ => finish ..) .closed)) hopen
  have hkeeps := hopen.stay_bind (x := fun callee g => newCalleeTail g t.offset t.rounds callee)
    fun _ _ _ h => newCalleeTail_stops (.inr h)
  refine ite (fun _ => .bind (.call _) hthen hkeeps) fun hnew => (begins_primaryThen hnew
    (r := fun items _ => Parse.finish s.offset (.new t.asyncName items)) (fun g u hu => ?_)
    (fun items _ => finish ..) hthen hkeeps).built
  refine (bind_of_ok (newCalleeTail_stops (.inl hu))).trans ?_
  rw [get_run, if_pos (ParserState.atMark_iff.2 hu)]

theorem suffixes_of_end {g : Grammar} {start rounds : Nat} {n : Node} {t : ParserState}
    (h : t.kind = .endOfInput) : suffixes g start rounds n t = .ok n t := by
  cases rounds with
  | zero => rfl
  | succ rounds =>
    rw [suffixes, get_run, h]
    rfl

theorem begins_leftHandSide : Begins last s (Node.Open last) leftHandSide := by
  have hthen : ∀ (n : Node) t, Built last t (Node.Open last) fun g =>
      if n.isArrowFunction then pure n else suffixes g s.offset s.rounds n :=
    fun n t => ite (fun _ => .pure _) fun _ => built_suffixes ..
  have hopen : KeepsOpen last (Node.Open last) (Node.Open last) fun (n : Node) g =>
      if n.isArrowFunction then pure n else suffixes g s.offset s.rounds n :=
    .stay fun n g t ht => by
      split
      · rfl
      · exact suffixes_of_end ht
  obtain ⟨rounds, hrounds⟩ : ∃ n, s.rounds = n + 1 :=
    Nat.exists_eq_succ_of_ne_zero (Nat.pos_iff_ne_zero.1 s.stream.nonempty)
  refine .look (fun _ _ _ _ _ => rfl) (.ite (fun _ => .bind begins_newExpression hthen hopen) fun hnew =>
    begins_primaryThen hnew (r := fun items g => Parse.finish s.offset (.call s.asyncName items false) >>=
      suffixes g s.offset rounds) (fun g t ht => ?_) (fun items _ => step (finish ..) fun _ _ =>
        built_suffixes ..) hthen hopen)
  have harrow : s.asyncName.isArrowFunction = false := rfl
  simp only [harrow, Bool.false_eq_true, ↓reduceIte]
  rw [hrounds, suffixes, get_run, ht]

theorem begins_postfixExpression (start : Nat) :
    Begins last s (Node.Open last) fun g => postfixExpression g start := by
  refine .bind begins_leftHandSide (fun n t => look (fun _ _ _ _ _ => rfl) (ite (fun h => ?_)
    fun _ => .pure _)) (.look fun t ht => ?_)
  · rw [Bool.and_eq_true, isUpdateOperator, Bool.or_eq_true, beq_iff_eq, beq_iff_eq] at h
    have hstuck : ¬ t.IsStuck := by
      rcases h.1 with h | h <;> exact ParserState.not_isStuck h (by simp) (by simp)
    exact step (read hstuck) fun _ _ => finish ..
  · have hkind : t.current.kind = .endOfInput := ht
    have h : isUpdateOperator t.current.kind = false := by rw [hkind]; rfl
    simp only [h, Bool.false_and, Bool.false_eq_true, ↓reduceIte]
    exact .pure fun _ h => h

theorem not_isStuck_of_unaryOperator {op : UnaryOperator} (h : unaryOperator? s.current = some op) :
    ¬ s.IsStuck := by
  rintro (h' | h') <;> rw [ParserState.kind] at h' <;> rw [unaryOperator?, h'] at h <;> cases h

theorem begins_unary : Begins last s (Node.Open last) unary := by
  refine .nested (.look (fun _ _ _ _ _ => rfl) ?_)
  cases hop : unaryOperator? s.current with
  | some op =>
    exact .step (.read (not_isStuck_of_unaryOperator hop)) fun _ _ => .bind (.call _) (fun _ _ => .pure _)
      (.pure fun _ h => .of_child (by simp [NodeKind.children]) h)
  | none =>
    refine .ite (fun h => ?_) fun _ => begins_postfixExpression _
    rw [isUpdateOperator, Bool.or_eq_true, beq_iff_eq, beq_iff_eq] at h
    have hstuck : ¬ s.IsStuck := by
      rcases h with h | h <;> exact ParserState.not_isStuck h (by simp) (by simp)
    exact .step (.read hstuck) fun _ _ => .bind (.call _) (fun _ _ => .pure _)
      (.pure fun _ h => .of_child (by simp [NodeKind.children]) h)

theorem not_isStuck_of_binaryPrecedence {n : Nat} (h : binaryPrecedence? s.noIn s.kind = some n) :
    ¬ s.IsStuck := by
  rintro (h' | h') <;> rw [h'] at h <;> cases h

theorem binaryTail_of_end {g : Grammar} {start least rounds : Nat} {n : Node} {t : ParserState}
    (h : t.kind = .endOfInput) : binaryTail g start least rounds n t = .ok n t := by
  cases rounds with
  | zero => rfl
  | succ rounds =>
    rw [binaryTail, get_run, h]
    rfl

theorem Node.Open.binaryNode {range : TextRange} {op : TokenKind} {left right : Node}
    (h : left.Open last ∨ right.Open last) : Node.Open last ⟨range, binaryNode op left right⟩ := by
  rw [Grammar.binaryNode]
  split <;> rcases h with h | h <;> exact .of_child (by simp [NodeKind.children]) h

theorem built_binaryTail (start least : Nat) : ∀ rounds left s,
    Built last s (Node.Open last) fun g => binaryTail g start least rounds left
  | 0, left, _ => .pure left
  | rounds + 1, left, s => by
    refine look (fun _ _ _ _ _ => rfl) ?_
    cases hp : binaryPrecedence? s.noIn s.kind with
    | none => exact .pure _
    | some precedence =>
      refine ite (fun _ => .pure _) fun _ => step (read (not_isStuck_of_binaryPrecedence hp)) fun _ _ =>
        .bind (.call _) (fun _ _ => built_binaryTail ..) ?_
      intro g _ right t u b hright _ ht _ hrun
      cases (binaryTail_of_end ht).symm.trans hrun
      exact .binaryNode (.inr hright)

theorem begins_binary (least : Nat) : Begins last s (Node.Open last) fun g => binary g least :=
  .look (fun _ _ _ _ _ => rfl) (.bind begins_unary (fun _ _ => built_binaryTail ..)
    (.stay fun _ _ _ h => binaryTail_of_end h))

theorem begins_conditional : Begins last s (Node.Open last) conditional := by
  refine .offset (.bind (begins_binary _) (fun test _ => step (nextMark (by simp)) fun _ _ =>
    ite (fun _ => .pure _) fun _ => ?_) (.nextMark (.pure fun _ h => h)))
  exact .bind (.withNoIn _ (.call _)) (fun _ _ => step (expect (by simp)) fun _ _ =>
    .bind (.call _) (fun _ _ => .pure _) (.pure fun _ h => .of_child (by simp [NodeKind.children]) h))
    .expect

theorem begins_assignment : Begins last s (Node.Open last) assignment := by
  refine .nested (.offset (.bind begins_conditional (fun target t => look (fun _ _ _ _ _ => rfl)
    (ite (fun _ => .pure _) fun h => ?_)) (.look fun t ht => ?_)))
  · have hkind : t.kind.isAssignment = true := by simpa using h
    have hstuck : ¬ t.IsStuck := by rintro (h' | h') <;> rw [h'] at hkind <;> cases hkind
    exact step (read hstuck) fun _ _ => .bind (.call _) (fun _ _ => .pure _)
      (.pure fun _ h => .of_child (by simp [NodeKind.children]) h)
  · have h : t.kind.isAssignment = false := by rw [ht]; rfl
    simp only [h, Bool.not_false, ↓reduceIte]
    exact .pure fun _ h => h

end Typeahead
