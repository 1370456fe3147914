/-
# The layout of expressions

An operator, a suffix or an arrow makes a node of what was read so far and what it reads. The
node starts where the first of its pieces does and stops where the last one does.

Key theorems: `lays_primary`, `lays_leftHandSide`, `lays_unary`, `lays_assignment`.
-/
import Typeahead.Proofs.Layout.Literals

namespace Typeahead

open Parse Grammar

variable {depth : Nat} {s t u : ParserState} {g : Grammar} {n : Node}

theorem lays_leaf {most : Nat} {kind : Token → NodeKind} (hs : s.Sound) (hk : s.kind ≠ .endOfInput)
    (hkind : (kind s.current).opensScope = false) (hp : (kind s.current).pieces = [])
    (hc : (kind s.current).children = []) (hcount : (kind s.current).counted = [])
    (h : leaf kind s = .ok n t) : Lays (Node.ScopesWithin most) s t [n] := by
  cases h
  exact .leaf hs hk hkind hp hc hcount

variable (hg : g.Lays) (hs : s.SoundAt depth)
include hg hs

/-! ### Arrow functions -/

theorem lays_arrowParameters? {o : Option (List Node)} (h : arrowParameters? g s = .ok o t) :
    Lays (Node.ScopesWithin (scopesAt depth)) s t (o.getD []) := by
  have hf := (Proceeds.arrowParameters? (hg.proceedsOn (O := fun _ => True) begins_parameterList.built)).ok h
  rw [arrowParameters?] at h
  split at h
  · cases h
    exact .nil hs.toSound hf
  · split at h <;> rename_i hrun
    · split at h <;> cases h
      · exact (lays_parameterList hg hs hrun).1
      · exact .nil hs.toSound hf
    · cases h
      exact .nil hs.toSound hf

theorem lays_arrowRest {params : List Node} {isAsync : Bool}
    (hp : Lays (Node.ScopesWithin (scopesAt depth)) s u params)
    (h : arrowRest g s.offset params isAsync u = .ok n t) :
    Lays (Node.ScopesWithin (scopesAt depth + 2)) s t [n] := by
  have hend : ∀ body v w, Lays (Node.ScopesWithin (scopesAt depth + 1)) v w [body] → u.Follows v →
      Lays (Node.ScopesWithin (scopesAt depth + 2)) s w
        [⟨⟨s.offset, body.stop⟩, .arrowFunction params body isAsync⟩] := by
    intro body v w hbody huv
    have hall := (hp.mono (Nat.le_succ _)).append (.after hp.sound_after huv hbody)
    exact Lays.scope hall (Lays.stops_last hall) rfl rfl trivial rfl
  obtain ⟨_, v, hv, h⟩ := bind_ok.1 h
  have harrow := (expect_progress hp.sound_after hv).1
  have hsv := (hs.follows hp.follows).follows harrow
  rw [get_run] at h
  split at h
  · obtain ⟨body, w, hw, h⟩ := bind_ok.1 h
    cases h
    exact hend body v t (.allowIn (l := fun n => [n]) hsv hw (lays_block hg)) harrow
  · obtain ⟨body, w, hw, h⟩ := bind_ok.1 h
    cases h
    exact hend body v t ((hg.assignment hsv hw).mono (Nat.le_succ _)) harrow

theorem lays_singleParameterArrow {isAsync : Bool} (hu : s.Follows u)
    (h : singleParameterArrow g s.offset isAsync u = .ok n t) :
    Lays (Node.ScopesWithin (scopesAt depth + 2)) s t [n] := by
  rw [singleParameterArrow, run_offset] at h
  obtain ⟨name, v, hv, h⟩ := bind_ok.1 h
  obtain ⟨param, w, hw, h⟩ := bind_ok.1 h
  cases hw
  have hsu := hs.follows hu
  obtain ⟨hf, hlt⟩ := bindingName_progress hsu.toSound hv
  have hparam : Lays (Node.ScopesWithin (scopesAt depth)) u v
      [⟨⟨u.offset, max v.lastStop u.offset⟩, .parameter name none none false⟩] :=
    Lays.finish (.nil hsu.toSound hf) hlt rfl rfl rfl
  exact lays_arrowRest hg hs (.after hs.toSound hu hparam) h

theorem lays_parenthesizedOrArrow (h : parenthesizedOrArrow g s.offset s = .ok n t) :
    Lays (Node.ScopesWithin (scopesAt depth + 2)) s t [n] := by
  obtain ⟨o, u, hu, h⟩ := bind_ok.1 h
  have hparams := lays_arrowParameters? hg hs hu
  cases o with
  | some params => exact lays_arrowRest hg hs hparams h
  | none =>
    obtain ⟨_, v, hv, h⟩ := bind_ok.1 h
    obtain ⟨inner, w, hw, h⟩ := bind_ok.1 h
    obtain ⟨_, x, hx, h⟩ := bind_ok.1 h
    cases h
    have hopen := hparams.follows.trans (expect_progress hparams.sound_after hv).1
    have hinner := Lays.after hs.toSound hopen
      (.allowIn (l := fun n => [n]) (hs.follows hopen) hw (lays_innerSequence hg))
    have hall := hinner.step (expect_progress hinner.sound_after hx).1
    exact (Lays.finish hall (hall.progress (by simp)) rfl rfl rfl).mono (Nat.le_add_right ..)

theorem lays_functionExpression {isAsync : Bool} (hu : s.Follows u)
    (h : functionExpression g s.offset isAsync u = .ok n t) :
    Lays (Node.ScopesWithin (scopesAt depth + 2)) s t [n] := by
  have hend : ∀ (name : Option String) v, s.Follows v → (do
      return functionNode s.offset (← functionRest g name isAsync)) v = .ok n t →
      Lays (Node.ScopesWithin (scopesAt depth + 2)) s t [n] := by
    intro name v hv h
    obtain ⟨parts, w, hw, h⟩ := bind_ok.1 h
    cases h
    exact lays_functionNode hg hs hv hw
  obtain ⟨_, v, hv, h⟩ := bind_ok.1 h
  obtain ⟨_, w, hw, h⟩ := bind_ok.1 h
  have hsu := hs.follows hu
  have hword := (expectKind_progress (by simp) hsu.toSound hv).1
  have hf := hu.trans (hword.trans (nextIf_follows hw))
  rw [get_run] at h
  split at h
  · obtain ⟨o, x, hx, h⟩ := bind_ok.1 h
    obtain ⟨name, hname, rfl⟩ := map_ok.1 hx
    exact hend (some name) x (hf.trans (bindingName_progress (hs.follows hf).toSound hname).1) h
  · exact hend none w hf h

/-! ### Primary expressions -/

/-- Without parameters the parse is back at the `async`. -/
theorem lays_asyncArrowParameters? {o : Option (List Node)} (h : asyncArrowParameters? g s = .ok o t) :
    Lays (Node.ScopesWithin (scopesAt depth)) s t (o.getD []) ∧ (o = none → t.stream = s.stream) := by
  have hread := s.follows_advance
  rw [asyncArrowParameters?] at h
  cases hrun : arrowParameters? g s.advance with
  | error e v => simp [hrun] at h
  | ok r v =>
    have hparams := lays_arrowParameters? hg (hs.follows hread) hrun
    cases r with
    | none =>
      simp only [hrun] at h
      cases h
      refine ⟨.nil hs.toSound ?_, fun _ => rfl⟩
      exact { hparams.follows with
        tokens := rfl
        position := Nat.le_refl _
        bound := Nat.le_max_left .. }
    | some params =>
      simp only [hrun] at h
      cases h
      exact ⟨.after hs.toSound hread hparams, fun hnone => by cases hnone⟩

theorem lays_asyncPrimary (hk : s.kind = .keyword .asyncWord) (h : asyncPrimary g s = .ok n t) :
    Lays (Node.ScopesWithin (scopesAt depth + 2)) s t [n] := by
  have hread := s.follows_advance
  have hname : ∀ u, s.Follows u → u.kind ≠ .endOfInput → (do
      let token ← next
      finish s.offset (.identifier token.text)) u = .ok n t →
      Lays (Node.ScopesWithin (scopesAt depth + 2)) s t [n] := by
    intro u hu huk h
    cases h
    have hlt := u.position_lt_advance (hs.toSound.follows hu).closed huk
    exact Lays.finish (.nil hs.toSound (hu.trans u.follows_advance))
      (Nat.lt_of_le_of_lt hu.position hlt) rfl rfl rfl
  have hself : s.kind ≠ .endOfInput := by rw [hk]; simp
  rw [asyncPrimary, get_run] at h
  split at h
  · exact hname s (.rfl s) hself h
  · split at h
    · rw [run_next] at h
      exact lays_functionExpression hg hs hread h
    · split at h
      · rw [run_next] at h
        exact lays_singleParameterArrow hg hs hread h
      · split at h
        · obtain ⟨o, u, hu, h⟩ := bind_ok.1 h
          obtain ⟨hparams, hstream⟩ := lays_asyncArrowParameters? hg hs hu
          cases o with
          | some params => exact lays_arrowRest hg hs hparams h
          | none =>
            refine hname u hparams.follows ?_ h
            rw [ParserState.kind, ParserState.current, hstream rfl]
            exact hself
        · exact hname s (.rfl s) hself h

theorem lays_namePrimary (hk : s.kind ≠ .endOfInput) (h : namePrimary g s = .ok n t) :
    Lays (Node.ScopesWithin (scopesAt depth + 2)) s t [n] := by
  rw [namePrimary, get_run] at h
  split at h
  · exact lays_singleParameterArrow hg hs (.rfl s) h
  · cases h
    exact .leaf hs.toSound hk rfl rfl rfl rfl

omit hg hs in
theorem reservedExpression_plain {word : String} {kind : NodeKind}
    (h : reservedExpression? word = some kind) : kind.opensScope = false ∧ kind.pieces = [] ∧
      kind.children = [] ∧ kind.counted = [] := by
  unfold reservedExpression? at h
  split at h <;> cases h <;> exact ⟨rfl, rfl, rfl, rfl⟩

theorem lays_primary (h : primary g s = .ok n t) :
    Lays (Node.ScopesWithin (scopesAt depth + 3)) s t [n] := by
  have hname : ∀ kind : TokenKind, s.kind = kind →
      (if kind.isBindingName then namePrimary g else throw s.noExpression) s = .ok n t →
      Lays (Node.ScopesWithin (scopesAt depth + 3)) s t [n] := by
    intro kind hk h
    split at h
    · rename_i hname
      refine (lays_namePrimary hg hs (fun hend => ?_) h).mono (Nat.le_succ _)
      rw [← hk, hend] at hname
      cases hname
    · cases h
  have hleaf : ∀ {kind : Token → NodeKind}, s.kind ≠ .endOfInput → (kind s.current).opensScope = false →
      (kind s.current).pieces = [] → (kind s.current).children = [] → (kind s.current).counted = [] →
      leaf kind s = .ok n t → Lays (Node.ScopesWithin (scopesAt depth + 3)) s t [n] :=
    fun hk hkind hp hc hcount h => lays_leaf hs.toSound hk hkind hp hc hcount h
  rw [primary, get_run] at h
  cases hk : s.kind with
  | punct mark =>
    simp only [hk] at h
    cases mark
    case openParen => exact (lays_parenthesizedOrArrow hg hs h).mono (Nat.le_succ _)
    case openBracket =>
      exact ((lays_arrayLiteral hg hs h).weaken fun _ hn => hn.1).mono (Nat.le_add_right ..)
    case openBrace =>
      exact ((lays_objectLiteral hg hs h).weaken fun _ hn => hn.1).mono (Nat.le_succ _)
    all_goals exact hname _ hk h
  | keyword word =>
    simp only [hk] at h
    cases word
    case asyncWord => exact (lays_asyncPrimary hg hs hk h).mono (Nat.le_succ _)
    case thisWord => exact hleaf (by rw [hk]; simp) rfl rfl rfl rfl h
    case functionWord => exact (lays_functionExpression hg hs (.rfl s) h).mono (Nat.le_succ _)
    case classWord =>
      obtain ⟨parts, u, hu, h⟩ := bind_ok.1 h
      cases h
      have hparts := lays_classParts hg hs hu
      refine hparts.node (hparts.pieces.stops_finish hparts.progress) (fun hstrict => ?_) (.inl rfl)
      refine Nat.le_trans hparts.body.le ?_
      rw [ParserState.reach_of_strict (hparts.pieces.follows.recovering.trans hstrict)]
      exact Nat.le_max_left ..
    case newWord => exact hg.lays hs h
    all_goals exact hname _ hk h
  | string | number =>
    simp only [hk] at h
    obtain ⟨hplain, hp, hc, hcount⟩ := literalOfToken_plain s.current
    exact hleaf (by rw [hk]; simp) hplain hp hc hcount h
  | template =>
    simp only [hk] at h
    exact hleaf (by rw [hk]; simp) rfl rfl rfl rfl h
  | reserved =>
    simp only [hk] at h
    cases hr : reservedExpression? s.current.text with
    | some kind =>
      simp only [hr] at h
      obtain ⟨hplain, hp, hc, hcount⟩ := reservedExpression_plain hr
      exact hleaf (by rw [hk]; simp) hplain hp hc hcount h
    | none =>
      simp only [hr] at h
      cases h
  | _ =>
    simp only [hk] at h
    exact hname _ hk h

/-! ### Suffixes -/

omit hg hs in
theorem anyWord_progress {name : String} (hs : s.Sound) (h : anyWord s = .ok name t) :
    s.Follows t ∧ s.position < t.position := by
  rw [anyWord] at h
  split at h <;> rename_i hw <;> cases h
  refine ⟨s.follows_advance, s.position_lt_advance hs.closed fun hk => ?_⟩
  rw [hk] at hw
  cases hw

omit hg in
theorem lays_memberName (h : memberName s = .ok n t) :
    Lays (Node.ScopesWithin (scopesAt depth)) s t [n] := by
  rw [memberName, run_offset] at h
  rcases run_nextIf h with ⟨-, h⟩ | ⟨-, h⟩
  · obtain ⟨name, u, hu, h⟩ := bind_ok.1 h
    cases h
    obtain ⟨hf, hlt⟩ := anyWord_progress (hs.toSound.follows s.follows_advance) hu
    have hp := Nat.lt_of_le_of_lt s.follows_advance.position hlt
    exact Lays.finish (.nil hs.toSound (s.follows_advance.trans hf)) hp rfl rfl rfl
  · obtain ⟨name, u, hu, h⟩ := bind_ok.1 h
    cases h
    obtain ⟨hf, hlt⟩ := anyWord_progress hs.toSound hu
    exact Lays.finish (.nil hs.toSound hf) hlt rfl rfl rfl

omit hg hs in
/-- What was read so far and the property make a member. -/
theorem lays_member {object property : Node} {v : ParserState} {computed chained : Bool}
    (ho : Lays (Node.ScopesWithin (scopesAt depth + 3)) s u [object]) (huv : u.Follows v)
    (hp : Lays (Node.ScopesWithin (scopesAt depth)) v t [property]) :
    Lays (Node.ScopesWithin (scopesAt depth + 3)) s t
      [⟨⟨s.offset, max t.lastStop s.offset⟩, .member object property computed chained⟩] := by
  have hall := ho.append (.after ho.sound_after huv (hp.mono (Nat.le_add_right ..)))
  exact Lays.finish hall (hall.progress (by simp)) rfl rfl rfl

omit hg hs in
/-- What was read so far and the arguments make a call. -/
theorem lays_call {callee : Node} {items : List Node} {v : ParserState} {chained : Bool}
    (hc : Lays (Node.ScopesWithin (scopesAt depth + 3)) s u [callee]) (huv : u.Follows v)
    (hi : Lays (Node.ScopesWithin (scopesAt depth)) v t items) :
    Lays (Node.ScopesWithin (scopesAt depth + 3)) s t
      [⟨⟨s.offset, max t.lastStop s.offset⟩, .call callee items chained⟩] := by
  have hall := hc.append (.after hc.sound_after huv (hi.mono (Nat.le_add_right ..)))
  exact Lays.finish hall (hall.progress (by simp)) rfl rfl rfl

theorem lays_newCalleeTail : ∀ {rounds u callee},
    Lays (Node.ScopesWithin (scopesAt depth + 3)) s u [callee] →
    newCalleeTail g s.offset rounds callee u = .ok n t →
    Lays (Node.ScopesWithin (scopesAt depth + 3)) s t [n]
  | 0, u, callee, hc, h => by
    cases h
    exact hc
  | rounds + 1, u, callee, hc, h => by
    have hsu := hs.follows hc.follows
    have hdone : pure (f := Parse) callee u = .ok n t →
        Lays (Node.ScopesWithin (scopesAt depth + 3)) s t [n] := by
      intro h
      cases h
      exact hc
    rw [newCalleeTail, get_run] at h
    cases hk : u.kind with
    | punct mark =>
      simp only [hk] at h
      cases mark
      case dot =>
        dsimp only at h
        rw [run_next] at h
        obtain ⟨property, v, hv, h⟩ := bind_ok.1 h
        have hproperty := lays_memberName (hsu.follows u.follows_advance) hv
        exact lays_newCalleeTail (lays_member hc u.follows_advance hproperty) h
      case openBracket =>
        obtain ⟨property, v, hv, h⟩ := bind_ok.1 h
        exact lays_newCalleeTail (lays_member hc (.rfl u) (lays_computedKey hg hsu hv)) h
      all_goals exact hdone h
    | _ =>
      simp only [hk] at h
      exact hdone h

theorem lays_newExpression (h : newExpression g s = .ok n t) :
    Lays (Node.ScopesWithin (scopesAt depth + 3)) s t [n] := by
  rw [newExpression, run_offset] at h
  obtain ⟨_, u, hu, h⟩ := bind_ok.1 h
  obtain ⟨hword, hlt⟩ := expectKind_progress (by simp) hs.toSound hu
  have hsu := hs.follows hword
  rcases run_nextIf h with ⟨-, h⟩ | ⟨-, h⟩
  · obtain ⟨name, v, hv, h⟩ := bind_ok.1 h
    cases h
    obtain ⟨hf, -⟩ := anyWord_progress (hsu.follows u.follows_advance).toSound hv
    have hread := u.follows_advance.trans hf
    exact Lays.finish (.nil hs.toSound (hword.trans hread)) (Nat.lt_of_lt_of_le hlt hread.position)
      rfl rfl rfl
  · simp only [Bool.false_eq_true, ↓reduceIte] at h
    rw [get_run] at h
    have hend : ∀ callee (items : List Node) w x, Lays (Node.ScopesWithin (scopesAt depth + 3)) u w [callee] →
        Lays (Node.ScopesWithin (scopesAt depth)) w x items → finish s.offset (.new callee items) x = .ok n t →
        Lays (Node.ScopesWithin (scopesAt depth + 3)) s t [n] := by
      intro callee items w x hcallee hitems h
      cases h
      have hall := Lays.after hs.toSound hword (hcallee.append (hitems.mono (Nat.le_add_right ..)))
      exact Lays.finish hall (hall.progress (by simp)) rfl rfl rfl
    have hrest : ∀ callee v, Lays (Node.ScopesWithin (scopesAt depth + 3)) u v [callee] → (do
        let callee ← newCalleeTail g u.offset u.rounds callee
        let items ← if (← get).atMark .openParen then arguments g else pure []
        finish s.offset (.new callee items)) v = .ok n t →
        Lays (Node.ScopesWithin (scopesAt depth + 3)) s t [n] := by
      intro callee v hcallee h
      obtain ⟨callee, w, hw, h⟩ := bind_ok.1 h
      have htail := lays_newCalleeTail hg hsu hcallee hw
      rw [get_run] at h
      split at h
      · obtain ⟨items, x, hx, h⟩ := bind_ok.1 h
        exact hend callee items w x htail (lays_arguments hg (hsu.follows htail.follows) hx) h
      · exact hend callee [] w w htail (.nil htail.sound_after (.rfl w)) h
    split at h
    · obtain ⟨callee, v, hv, h⟩ := bind_ok.1 h
      exact hrest callee v (hg.lays hsu hv) h
    · obtain ⟨callee, v, hv, h⟩ := bind_ok.1 h
      exact hrest callee v (lays_primary hg hsu hv) h

theorem lays_suffixes : ∀ {rounds u expression},
    Lays (Node.ScopesWithin (scopesAt depth + 3)) s u [expression] →
    suffixes g s.offset rounds expression u = .ok n t →
    Lays (Node.ScopesWithin (scopesAt depth + 3)) s t [n]
  | 0, u, expression, he, h => by
    cases h
    exact he
  | rounds + 1, u, expression, he, h => by
    have hsu := hs.follows he.follows
    have hread := u.follows_advance
    have hdone : pure (f := Parse) expression u = .ok n t →
        Lays (Node.ScopesWithin (scopesAt depth + 3)) s t [n] := by
      intro h
      cases h
      exact he
    -- the tokens of a computed member, a call and a plain member
    have hcomputed : ∀ chained v, u.Follows v → (do
        let property ← computedKey g
        suffixes g s.offset rounds (← memberNode s.offset expression property true chained)) v = .ok n t →
        Lays (Node.ScopesWithin (scopesAt depth + 3)) s t [n] := by
      intro chained v hv h
      obtain ⟨property, w, hw, h⟩ := bind_ok.1 h
      exact lays_suffixes (lays_member he hv (lays_computedKey hg (hsu.follows hv) hw)) h
    have hcall : ∀ chained v, u.Follows v → (do
        let items ← arguments g
        suffixes g s.offset rounds (← finish s.offset (.call expression items chained))) v = .ok n t →
        Lays (Node.ScopesWithin (scopesAt depth + 3)) s t [n] := by
      intro chained v hv h
      obtain ⟨items, w, hw, h⟩ := bind_ok.1 h
      exact lays_suffixes (lays_call he hv (lays_arguments hg (hsu.follows hv) hw)) h
    have hmember : ∀ chained, (do
        let property ← memberName
        suffixes g s.offset rounds (← memberNode s.offset expression property false chained)) u.advance =
          .ok n t → Lays (Node.ScopesWithin (scopesAt depth + 3)) s t [n] := by
      intro chained h
      obtain ⟨property, w, hw, h⟩ := bind_ok.1 h
      exact lays_suffixes (lays_member he hread (lays_memberName (hsu.follows hread) hw)) h
    rw [suffixes, get_run] at h
    cases hk : u.kind with
    | punct mark =>
      simp only [hk] at h
      cases mark
      case dot => exact hmember false h
      case optionalDot =>
        dsimp only at h
        rw [run_next, get_run] at h
        cases hk' : u.advance.kind with
        | punct mark =>
          simp only [hk'] at h
          cases mark
          case openParen => exact hcall true _ hread h
          case openBracket => exact hcomputed true _ hread h
          all_goals exact hmember true h
        | _ =>
          simp only [hk'] at h
          exact hmember true h
      case openBracket => exact hcomputed false u (.rfl u) h
      case openParen => exact hcall false u (.rfl u) h
      all_goals exact hdone h
    | template =>
      simp only [hk] at h
      obtain ⟨template, w, hw, h⟩ := bind_ok.1 h
      exact lays_suffixes (lays_call he (.rfl u)
        (lays_leaf hsu.toSound (by rw [hk]; simp) rfl rfl rfl rfl hw)) h
    | _ =>
      simp only [hk] at h
      exact hdone h

theorem lays_leftHandSide (h : leftHandSide g s = .ok n t) :
    Lays (Node.ScopesWithin (scopesAt depth + 3)) s t [n] := by
  have hrest : ∀ expression v, Lays (Node.ScopesWithin (scopesAt depth + 3)) s v [expression] →
      (if expression.isArrowFunction then pure expression
        else suffixes g s.offset s.rounds expression) v = .ok n t →
      Lays (Node.ScopesWithin (scopesAt depth + 3)) s t [n] := by
    intro expression v he h
    split at h
    · cases h
      exact he
    · exact lays_suffixes hg hs he h
  rw [leftHandSide, get_run] at h
  split at h
  · obtain ⟨expression, v, hv, h⟩ := bind_ok.1 h
    exact hrest expression v (lays_newExpression hg hs hv) h
  · obtain ⟨expression, v, hv, h⟩ := bind_ok.1 h
    exact hrest expression v (lays_primary hg hs hv) h

/-! ### Operators -/

theorem lays_postfixExpression (h : postfixExpression g s.offset s = .ok n t) :
    Lays (Node.ScopesWithin (scopesAt depth + 3)) s t [n] := by
  obtain ⟨expression, u, hu, h⟩ := bind_ok.1 h
  have he := lays_leftHandSide hg hs hu
  rw [get_run] at h
  split at h
  · cases h
    have hall := he.step u.follows_advance
    exact Lays.finish hall (hall.progress (by simp)) rfl rfl rfl
  · cases h
    exact he

omit hg hs in
theorem scopesAt_succ {depth : Nat} (h : depth < maxParseDepth) :
    scopesAt (depth + 1) + 3 = scopesAt depth := by
  rw [scopesAt, scopesAt]
  omega

omit hg in
/-- One level deeper three scopes fewer lie one in another. -/
theorem lays_nested {x : Parse Node} (h : nested x s = .ok n t)
    (hx : ∀ u, ({ s with depth := s.depth + 1 } : ParserState).SoundAt (depth + 1) →
      x { s with depth := s.depth + 1 } = .ok n u →
      Lays (Node.ScopesWithin (scopesAt (depth + 1) + 3)) { s with depth := s.depth + 1 } u [n]) :
    Lays (Node.ScopesWithin (scopesAt depth)) s t [n] := by
  refine .nested h fun u hlt hrun => ?_
  rw [hs.depth_eq] at hlt
  rw [← scopesAt_succ hlt]
  exact hx u ⟨⟨hs.inside, hs.ordered, hs.filled, hs.covers, hs.ends⟩, congrArg (· + 1) hs.depth_eq⟩ hrun

theorem lays_unary (h : unary g s = .ok n t) : Lays (Node.ScopesWithin (scopesAt depth)) s t [n] := by
  refine lays_nested hs h fun u hs' h => ?_
  generalize ({ s with depth := s.depth + 1 } : ParserState) = s' at *
  have hread := s'.follows_advance
  have hargument : ∀ {kind : Node → NodeKind}, (∀ m, (kind m).opensScope = false) →
      (∀ m, (kind m).pieces = [m]) → (∀ m, (kind m).children = [m]) → (∀ m, (kind m).counted = [m]) → (do
        let argument ← g .unary
        return (⟨⟨s'.offset, argument.stop⟩, kind argument⟩ : Node)) s'.advance = .ok n u →
      Lays (Node.ScopesWithin (scopesAt (depth + 1) + 3)) s' u [n] := by
    intro kind hkind hp hc hcount h
    obtain ⟨argument, v, hv, h⟩ := bind_ok.1 h
    cases h
    have harg := Lays.after hs'.toSound hread (hg.lays (hs'.follows hread) hv)
    have hstops := Lays.stops_last (l := []) harg
    rw [List.nil_append, ← hc] at hstops
    rw [← hc] at harg
    exact (Lays.flat harg hstops (hkind _) ((hp _).trans (hc _).symm)
      ((hcount _).trans (hc _).symm)).mono (Nat.le_add_right ..)
  rw [get_run] at h
  cases ho : unaryOperator? s'.current with
  | some operator =>
    simp only [ho, run_next] at h
    exact hargument (fun _ => rfl) (fun _ => rfl) (fun _ => rfl) (fun _ => rfl) h
  | none =>
    simp only [ho] at h
    split at h
    · rw [run_next] at h
      exact hargument (fun _ => rfl) (fun _ => rfl) (fun _ => rfl) (fun _ => rfl) h
    · exact lays_postfixExpression hg hs' h

omit hg hs in
/-- What was read so far and the right operand make a node. -/
theorem lays_binaryNode {left right : Node} {operator : TokenKind}
    (h : Lays (Node.ScopesWithin (scopesAt depth)) s t [left, right]) :
    Lays (Node.ScopesWithin (scopesAt depth)) s t
      [⟨⟨s.offset, right.stop⟩, binaryNode operator left right⟩] := by
  have hstops := Lays.stops_last (l := [left]) h
  rw [binaryNode]
  split
  · exact Lays.flat h hstops rfl rfl rfl
  · exact Lays.flat h hstops rfl rfl rfl

theorem lays_binaryTail {least : Nat} : ∀ {rounds u left},
    Lays (Node.ScopesWithin (scopesAt depth)) s u [left] →
    binaryTail g s.offset least rounds left u = .ok n t →
    Lays (Node.ScopesWithin (scopesAt depth)) s t [n]
  | 0, u, left, hl, h => by
    cases h
    exact hl
  | rounds + 1, u, left, hl, h => by
    rw [binaryTail, get_run] at h
    cases hp : binaryPrecedence? u.noIn u.kind with
    | none =>
      simp only [hp] at h
      cases h
      exact hl
    | some precedence =>
      simp only [hp] at h
      split at h
      · cases h
        exact hl
      · rw [run_next] at h
        obtain ⟨right, v, hv, h⟩ := bind_ok.1 h
        have hread := hl.follows.trans u.follows_advance
        have hright := Lays.after hl.sound_after u.follows_advance
          (hg.lays (q := .binary _) (hs.follows hread) hv)
        exact lays_binaryTail (lays_binaryNode (hl.append hright)) h

theorem lays_binary {least : Nat} (h : binary g least s = .ok n t) :
    Lays (Node.ScopesWithin (scopesAt depth)) s t [n] := by
  rw [binary, get_run] at h
  obtain ⟨left, u, hu, h⟩ := bind_ok.1 h
  exact lays_binaryTail hg hs (lays_unary hg hs hu) h

theorem lays_conditional (h : conditional g s = .ok n t) :
    Lays (Node.ScopesWithin (scopesAt depth)) s t [n] := by
  rw [conditional, run_offset] at h
  obtain ⟨test, u, hu, h⟩ := bind_ok.1 h
  have htest := lays_binary hg hs hu
  rcases run_nextIf h with ⟨-, h⟩ | ⟨-, h⟩
  · simp only [Bool.not_true, Bool.false_eq_true, ↓reduceIte] at h
    obtain ⟨consequent, v, hv, h⟩ := bind_ok.1 h
    obtain ⟨_, w, hw, h⟩ := bind_ok.1 h
    obtain ⟨alternate, x, hx, h⟩ := bind_ok.1 h
    cases h
    have hfirst := htest.step u.follows_advance
    have hconsequent : Lays (Node.ScopesWithin (scopesAt depth)) u.advance v [consequent] :=
      .allowIn (l := fun n => [n]) (hs.follows hfirst.follows) hv hg.assignment
    have hboth := hfirst.append hconsequent
    have hread := hboth.step (expect_progress hboth.sound_after hw).1
    have hall := hread.append (hg.assignment (hs.follows hread.follows) hx)
    exact Lays.flat hall (Lays.stops_last (l := [test, consequent]) hall) rfl rfl rfl
  · cases h
    exact htest

theorem lays_assignment (h : assignment g s = .ok n t) :
    Lays (Node.ScopesWithin (scopesAt depth)) s t [n] := by
  refine lays_nested hs h fun u hs' h => ?_
  generalize ({ s with depth := s.depth + 1 } : ParserState) = s' at *
  rw [run_offset] at h
  obtain ⟨target, v, hv, h⟩ := bind_ok.1 h
  have htarget := lays_conditional hg hs' hv
  rw [get_run] at h
  split at h
  · cases h
    exact htarget.mono (Nat.le_add_right ..)
  · rw [run_next] at h
    obtain ⟨value, w, hw, h⟩ := bind_ok.1 h
    cases h
    have hread := htarget.step v.follows_advance
    have hall := hread.append (hg.assignment (hs'.follows hread.follows) hw)
    exact (Lays.flat hall (Lays.stops_last (l := [target]) hall) rfl rfl rfl).mono (Nat.le_add_right ..)

end Typeahead
