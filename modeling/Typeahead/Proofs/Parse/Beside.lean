/-
# Parameters beside a list

What one parse reads as a list in parentheses another tries as parameters. Each parameter
begins with the head of an item: a name, or a pattern that is also a literal. So the
parameters end at the same parenthesis, or break off before it; either way nothing is
remembered on the way that some parse without memory has not found.

With this a choice carries over, and with it everything that is built.

Key definitions: `Comparison.CarriesAt`, `Comparison.Beside`.
Key theorems: `Comparison.beside_parametersFrom`, `Built.carries`.
-/
import Typeahead.Proofs.Parse.Compare

namespace Typeahead

open Parse Grammar

variable {α β ι : Type}

/-! ### Names and patterns -/

section

variable {g : Grammar} {s : ParserState}

theorem beginsHead_of_bracket (h : s.kind = .punct .openBrace ∨ s.kind = .punct .openBracket) :
    s.BeginsHead where
  notNew := by
    rw [ParserState.atKeyword]
    rcases h with h | h <;> rw [h] <;> rfl
  notCall := by
    rintro ⟨hs, -, -⟩
    rcases h with h | h <;> rw [h] at hs <;> cases hs
  notUnary := by
    rw [unaryOperator?]
    rcases h with h | h <;> rw [ParserState.kind] at h <;> rw [h]
  notUpdate := by rcases h with h | h <;> rw [h] <;> rfl

theorem beginsHead_of_name (h : s.atBindingName = true) (hnext : s.advance.kind ≠ .punct .openParen) :
    s.BeginsHead where
  notNew := by
    rw [ParserState.atKeyword, beq_eq_false_iff_ne]
    intro hs
    rw [ParserState.atBindingName, hs] at h
    cases h
  notCall := by
    rintro ⟨-, -, hparen⟩
    exact hnext ((congrArg Token.kind s.current_advance).trans hparen)
  notUnary := by
    rw [ParserState.atBindingName, ParserState.kind] at h
    rw [unaryOperator?]
    cases hk : s.current.kind with
    | keyword word => rw [hk] at h; cases word <;> first | rfl | cases h
    | punct | reserved => rw [hk] at h; cases h
    | _ => rfl
  notUpdate := by
    rw [ParserState.atBindingName] at h
    rw [isUpdateOperator, Bool.or_eq_false_iff, beq_eq_false_iff_ne, beq_eq_false_iff_ne]
    constructor <;> intro hs <;> rw [hs] at h <;> cases h

/-- The token can follow the name or the pattern of a parameter. -/
def TokenKind.EndsParameterHead (kind : TokenKind) : Prop :=
  kind = .punct .equals ∨ kind = .punct .comma ∨ kind = .punct .closeParen

theorem primary_of_name (h : s.atBindingName = true) (hnext : s.advance.kind.EndsParameterHead) :
    ∃ node, primary g s = .ok node s.advance := by
  have hfollowing : s.following.kind = s.advance.kind := congrArg Token.kind s.current_advance.symm
  by_cases hasync : s.kind = .keyword .asyncWord
  · have hfunction : s.following.kind ≠ .keyword .functionWord := by
      rw [hfollowing]
      rcases hnext with hs | hs | hs <;> rw [hs] <;> simp
    have hbinding : s.following.kind.isBindingName = false := by
      rw [hfollowing]
      rcases hnext with hs | hs | hs <;> rw [hs] <;> rfl
    have hparen : s.following.kind ≠ .punct .openParen := by
      rw [hfollowing]
      rcases hnext with hs | hs | hs <;> rw [hs] <;> simp
    refine ⟨s.asyncName, ?_⟩
    rw [primary, get_run, hasync]
    simp only [asyncPrimary, get_run, hfunction, hbinding, hparen, ↓reduceIte, Bool.false_and,
      Bool.false_eq_true, ite_self]
    rfl
  · have harrow : isArrow s.following = false := by
      rw [isArrow, hfollowing]
      rcases hnext with hs | hs | hs <;> rw [hs] <;> rfl
    exact ⟨_, (primary_eq_namePrimary h hasync).trans (namePrimary_of_not_arrow harrow)⟩

end

namespace Comparison

variable {c : Comparison} {k n : Nat} {s t s' : ParserState}

/-- Everything that is built carries over from `k` levels to `n`. -/
def CarriesAt (c : Comparison) (k n : Nat) : Prop :=
  ∀ {α : Type} {s₀ : ParserState} {O : α → Prop} {x : Grammar → Parse α}, Built c.last s₀ O x →
    c.Carries k n s₀ O x

/-- From `t` the second parse remembers nothing new that is not found elsewhere, and where it
stops it is where the first parse stopped. -/
structure Beside (c : Comparison) (stops : TokenKind → Prop) (y : Parse β) (t s' : ParserState) :
    Prop where
  error : ∀ {e t'}, y t = .error e t' → c.Remembers t'
  ok : ∀ {b t'}, y t = .ok b t' → c.Remembers t' ∧ (stops t'.kind → t'.stream = s'.stream)

/-- After the head of a parameter the second parse is where the first read the head of an
item; the first has reached the end of the item, or goes on to the value. -/
structure AfterHead (c : Comparison) (k : Nat) (t' s' : ParserState) : Prop where
  remembers : c.Remembers t'
  ends : t'.kind = .punct .comma ∨ t'.kind = .punct .closeParen → t'.stream = s'.stream
  value : t'.kind = .punct .equals → ∃ (w : ParserState) (node : Node) (v : ParserState),
    c.Pair w t' ∧ CleanRun (parseLevel k .assignment) w.advance node v ∧ s'.stream = v.stream

theorem afterHead_of_primary (hp : c.Pair s t) (hs : s.BeginsHead) {node : Node}
    (hitem : CleanRun (assignment (parseLevel k)) s node s') {t' : ParserState} (ht : t.Follows t')
    (hr : c.Remembers t')
    (hstream : ∀ p u, CleanRun (primary (parseLevel k)) { s with depth := s.depth + 2 } p u →
      (u.kind = .punct .arrow → s'.stream = u.stream) → t'.kind.EndsParameterHead → t'.stream = u.stream) :
    c.AfterHead k t' s' := by
  have hg := parseLevel_proceeds k
  obtain ⟨p, u, hu, hend, hvalue⟩ := hitem.head_of_assignment hg hs
  have hstream : t'.kind.EndsParameterHead → t'.stream = u.stream := hstream p u hu fun h =>
    hend (.inr (.inr (.inr (.inr h)))) (by rw [h]; simp)
  have hkind : t'.stream = u.stream → u.kind = t'.kind := fun h => by
    rw [ParserState.kind, ParserState.current, ← h]
    rfl
  refine ⟨hr, fun h => ?_, fun h => ?_⟩
  · have hu' := hstream (.inr h)
    rw [hu']
    have hk := hkind hu'
    rcases h with h | h
    · exact (hend (.inr (.inl (hk.trans h))) (by rw [hk, h]; simp)).symm
    · exact (hend (.inr (.inr (.inl (hk.trans h)))) (by rw [hk, h]; simp)).symm
  · have hu' := hstream (.inl h)
    obtain ⟨value, v, hv, hs'⟩ := hvalue ((hkind hu').trans h)
    have hfollows := ((built_primary hs.notCall : Built 0 _ _ _).proceeds hg
      { s with depth := s.depth + 2 } ⟨rfl, rfl⟩).ok hu.1
    have hpair : c.Pair u t' :=
      (hp.withDepth (d := s.depth + 2) (e := t.depth) (by have := hp.depth; omega)).of_follows
        hfollows ht hu' hr
    refine ⟨{ u with depth := s.depth + 1 }, value, v, ?_, hv, hs'⟩
    exact hpair.withDepth (e := t'.depth) (by have := hp.depth; rw [ht.depth]; omega)

/-- A pattern is read in the same way as a literal. -/
theorem afterHead_of_literal (hk : c.CarriesAt k n) (hp : c.Pair s t) (hs : s.BeginsHead)
    {node : Node} (hitem : CleanRun (assignment (parseLevel k)) s node s')
    (hend : s'.kind ≠ .punct .arrow) {literal : Grammar → Parse Node}
    (hbuilt : ∀ u, Built c.last u (fun _ => False) literal)
    (hprimary : primary (parseLevel k) { s with depth := s.depth + 2 } =
      literal (parseLevel k) { s with depth := s.depth + 2 }) :
    ∃ value t', literal (parseLevel n) t = .ok value t' ∧ c.AfterHead k t' s' := by
  have hg := parseLevel_proceeds k
  have hp2 : c.Pair { s with depth := s.depth + 2 } t :=
    hp.withDepth (e := t.depth) (by have := hp.depth; omega)
  obtain ⟨p, u, hu, hstuck, -⟩ := hitem.head_of_assignment hg hs
  have hu' : CleanRun (literal (parseLevel k)) { s with depth := s.depth + 2 } p u :=
    hu.of_eq hprimary rfl
  rcases hk (hbuilt _) (.rfl _) hp2 hu' with ⟨t', ht', hp'⟩ | harrow | ⟨-, -, -, h⟩
  · refine ⟨p, t', ht'.1, ?_⟩
    have hfollows := ((hbuilt t).proceeds (parseLevel_proceeds n) t (.rfl t)).ok ht'.1
    refine afterHead_of_primary hp hs hitem hfollows hp'.remembers fun q v hv _ _ => ?_
    cases hv.1.symm.trans hu.1
    exact hp'.view.1
  · have hstream := hstuck (.inr (.inr (.inr (.inr harrow)))) (by rw [harrow]; simp)
    refine absurd ?_ hend
    rw [ParserState.kind, ParserState.current, hstream]
    exact harrow
  · exact h.elim

/-- Beside an item the head of a parameter is read as the head of that item, or fails. -/
theorem afterHead_of_item (hk : c.CarriesAt k n) (hp : c.Pair s t) {node : Node}
    (hitem : CleanRun (assignment (parseLevel k)) s node s') (hend : s'.kind ≠ .punct .arrow) :
    (∀ e t', parameterHead (parseLevel n) t = .error e t' → c.Remembers t') ∧
      ∀ b t', parameterHead (parseLevel n) t = .ok b t' → c.AfterHead k t' s' := by
  have hliteral : ∀ literal : Grammar → Parse Node, s.BeginsHead →
      (∀ u, Built c.last u (fun _ => False) literal) →
      (primary (parseLevel k) { s with depth := s.depth + 2 } =
        literal (parseLevel k) { s with depth := s.depth + 2 }) →
      (parameterHead (parseLevel n) t = (literal (parseLevel n) >>= fun o => pure ("", some o)) t) →
      (∀ e t', parameterHead (parseLevel n) t = .error e t' → c.Remembers t') ∧
        ∀ b t', parameterHead (parseLevel n) t = .ok b t' → c.AfterHead k t' s' := by
    intro literal hs hbuilt hprimary hhead
    obtain ⟨value, v, hv, hafter⟩ := afterHead_of_literal hk hp hs hitem hend hbuilt hprimary
    rw [hhead, bind_of_ok hv]
    refine ⟨fun _ _ h => (by cases h), fun _ _ h => ?_⟩
    cases h
    exact hafter
  by_cases hbrace : s.kind = .punct .openBrace
  · refine hliteral objectLiteral (beginsHead_of_bracket (.inl hbrace))
      (fun _ => begins_objectLiteral.built) ?_ ?_
    · have hbrace : ParserState.kind { s with depth := s.depth + 2 } = .punct .openBrace := hbrace
      rw [primary, get_run, hbrace]
    · rw [parameterHead, get_run, hp.kind, hbrace]
  by_cases hbracket : s.kind = .punct .openBracket
  · refine hliteral arrayLiteral (beginsHead_of_bracket (.inr hbracket))
      (fun _ => begins_arrayLiteral.built) ?_ ?_
    · have hbracket : ParserState.kind { s with depth := s.depth + 2 } = .punct .openBracket := hbracket
      rw [primary, get_run, hbracket]
    · rw [parameterHead, get_run, hp.kind, hbracket]
  have hhead : parameterHead (parseLevel n) t = (bindingName >>= fun name => pure (name, none)) t := by
    rw [parameterHead, get_run, hp.kind]
    cases hkind : s.kind with
    | punct mark => cases mark <;> first | rfl | exact absurd hkind hbrace | exact absurd hkind hbracket
    | _ => rfl
  have hname : t.atBindingName = s.atBindingName := by
    rw [ParserState.atBindingName, hp.kind, ParserState.atBindingName]
  rw [hhead]
  cases hs : s.atBindingName with
  | false =>
    have hfail : bindingName t = .error (t.unexpected .identifier) t :=
      if_neg (by rw [hname, hs]; simp)
    rw [bind_of_error hfail]
    refine ⟨fun _ _ h => ?_, fun _ _ h => (by cases h)⟩
    cases h
    exact hp.remembers
  | true =>
    have hread : bindingName t = .ok t.current.text t.advance := if_pos (hname.trans hs)
    rw [bind_of_ok hread]
    refine ⟨fun _ _ h => (by cases h), fun b t' h => ?_⟩
    cases h
    have hkind : t.advance.kind = s.advance.kind := hp.advance.kind
    -- Before any other token the name is no head, and nothing is claimed.
    by_cases hnext : s.advance.kind.EndsParameterHead
    · have hparen : s.advance.kind ≠ .punct .openParen := by
        rcases hnext with h | h | h <;> rw [h] <;> simp
      refine afterHead_of_primary hp (beginsHead_of_name hs hparen) hitem t.follows_advance
        hp.advance.remembers fun p u hu _ _ => ?_
      obtain ⟨q, hq⟩ := primary_of_name (g := parseLevel k) (s := { s with depth := s.depth + 2 })
        hs hnext
      cases hu.1.symm.trans hq
      exact hp.advance.view.1
    · refine ⟨hp.advance.remembers, fun h => absurd ?_ hnext, fun h => absurd ?_ hnext⟩
      · exact .inr (hkind ▸ h)
      · exact .inl (hkind ▸ h)

/-! ### Parameters -/

/-- Where a parameter and an item can both go on. -/
def EndsItem (kind : TokenKind) : Prop := kind = .punct .comma ∨ kind = .punct .closeParen

theorem beside_parameterRest (hk : c.CarriesAt k n) {t' : ParserState} (hin : t'.noIn = false)
    (hafter : c.AfterHead k t' s') (hend : EndsItem s'.kind) (start : Nat) (isRest : Bool)
    (head : String × Option Node) :
    c.Beside EndsItem (parameterRest (parseLevel n) start isRest head) t' s' := by
  have hstuck : ¬ s'.IsStuck := by
    rcases hend with h | h <;> exact ParserState.not_isStuck h (by simp) (by simp)
  cases hmark : t'.atMark .equals with
  | false =>
    have hrun : parameterRest (parseLevel n) start isRest head t' = .ok
        ⟨⟨start, max t'.lastStop start⟩, .parameter head.1 head.2 none isRest⟩ t' := by
      rw [parameterRest, bind_of_ok (nextMark_of_false hmark)]
      rfl
    rw [ParserState.atMark, beq_eq_false_iff_ne] at hmark
    refine ⟨fun h => ?_, fun h => ?_⟩ <;> cases hrun.symm.trans h
    exact ⟨hafter.remembers, hafter.ends⟩
  | true =>
    obtain ⟨w, node, v, hpw, hv, hs'⟩ := hafter.value (ParserState.atMark_iff.1 hmark)
    have hview : c.Pair w.advance { t'.advance with noIn := false } := by
      have hw : w.noIn = false := hpw.view.2.symm.trans hin
      have hadvance : ({ w.advance with noIn := false } : ParserState) = w.advance := by
        rw [← hw]
        rfl
      exact hadvance ▸ hpw.advance.withNoIn false
    have hkind : v.kind = s'.kind := by
      rw [ParserState.kind, ParserState.current, ← hs']
      rfl
    rcases hk (.call .assignment) (.rfl _) hview hv with ⟨x, hx, hp'⟩ | hbreaks
    · have hvalue : allowIn (parseLevel n .assignment) t'.advance = .ok node { x with noIn := false } := by
        rw [← hin]
        exact withNoIn_of_ok (s := t'.advance) hx.1
      have hrun : parameterRest (parseLevel n) start isRest head t' = .ok
          ⟨⟨start, max (ParserState.lastStop { x with noIn := false }) start⟩,
            .parameter head.1 head.2 (some node) isRest⟩ { x with noIn := false } := by
        rw [parameterRest, bind_of_ok (nextMark_of_true hmark)]
        simp only [↓reduceIte, map_eq_pure_bind, bind_assoc]
        rw [bind_of_ok hvalue]
        rfl
      refine ⟨fun h => ?_, fun h => ?_⟩ <;> cases hrun.symm.trans h
      exact ⟨hp'.remembers, fun _ => hp'.view.1.trans hs'.symm⟩
    · have := hbreaks.isStuck
      rw [ParserState.IsStuck, hkind] at this
      exact absurd this hstuck

theorem beside_parameterFrom (hk : c.CarriesAt k n) (hp : c.Pair s t) (hin : s.noIn = false)
    {node : Node} (hitem : CleanRun (assignment (parseLevel k)) s node s') (hend : EndsItem s'.kind)
    (start : Nat) (isRest : Bool) :
    c.Beside EndsItem (parameterFrom (parseLevel n) start isRest) t s' := by
  have harrow : s'.kind ≠ .punct .arrow := by rcases hend with h | h <;> rw [h] <;> simp
  obtain ⟨herror, hok⟩ := afterHead_of_item hk hp hitem harrow
  have hnoIn : ∀ b t', parameterHead (parseLevel n) t = .ok b t' → t'.noIn = false := by
    intro b t' h
    exact ((built_parameterHead : Built 0 _ _ _).proceeds (parseLevel_proceeds n) t (.rfl t)).ok h |>.noIn.trans
      (hp.view.2.trans hin)
  rw [parameterFrom_eq]
  refine ⟨fun h => ?_, fun h => ?_⟩
  · rcases bind_error.1 h with h | ⟨b, t', h, hrest⟩
    · exact herror _ _ h
    · exact (beside_parameterRest hk (hnoIn _ _ h) (hok _ _ h) hend start isRest b).error hrest
  · obtain ⟨b, t', h, hrest⟩ := bind_ok.1 h
    exact (beside_parameterRest hk (hnoIn _ _ h) (hok _ _ h) hend start isRest b).ok hrest

theorem not_readsItem_of_closeParen (h : s.kind = .punct .closeParen) :
    ¬ ReadsItem (parseLevel k) s s' := by
  rintro (hrun | ⟨hs, -⟩)
  · exact (parseLevel_refuses (.inr (.inr (.inr (.inl h)))) k .assignment).not_clean hrun
  · rw [h] at hs
    cases hs

/-- What an item is after its `...`, if it has one. -/
theorem item_of_readsItem (h : ReadsItem (parseLevel k) s s') :
    ∃ u node, nextMark .ellipsis s = .ok (s.atMark .ellipsis) u ∧
      CleanRun (parseLevel k .assignment) u node s' := by
  cases hs : s.atMark .ellipsis with
  | true =>
    rcases h with h | ⟨-, h⟩
    · have hmark : s.kind = .punct .ellipsis := ParserState.atMark_iff.1 hs
      exact absurd h (parseLevel_refuses (.inr (.inr (.inl hmark))) k .assignment).not_clean
    · exact ⟨s.advance, _, nextMark_of_true hs, h⟩
  | false =>
    rcases h with h | ⟨hmark, -⟩
    · exact ⟨s, _, nextMark_of_false hs, h⟩
    · rw [ParserState.atMark, hmark] at hs
      cases hs

/-- A parameter beside an item, each after its `...`. -/
theorem beside_parameter (hk : ∀ k' < k, c.CarriesAt k' n) (hp : c.Pair s t) (hin : s.noIn = false)
    (hitem : ReadsItem (parseLevel k) s s') (hend : EndsItem s'.kind) (start : Nat) :
    ∃ isRest u t', nextMark .ellipsis t = .ok isRest t' ∧ s.Follows u ∧ t.Follows t' ∧ u.Follows s' ∧
      c.Beside EndsItem (parameterFrom (parseLevel n) start isRest) t' s' := by
  obtain ⟨u, node, hu, hrun⟩ := item_of_readsItem hitem
  have hmark := hp.view.atMark .ellipsis
  obtain ⟨t', ht', hpair⟩ : ∃ t', nextMark .ellipsis t = .ok (s.atMark .ellipsis) t' ∧ c.Pair u t' := by
    cases hs : s.atMark .ellipsis with
    | true =>
      rw [nextMark_of_true hs, hs] at hu
      cases hu
      exact ⟨t.advance, nextMark_of_true (hmark.trans hs), hp.advance⟩
    | false =>
      rw [nextMark_of_false hs, hs] at hu
      cases hu
      exact ⟨t, nextMark_of_false (hmark.trans hs), hp⟩
  have hfu := (Proceeds.nextIf _).ok hu
  refine ⟨_, u, t', ht', hfu, (Proceeds.nextIf _).ok ht', (parseLevel_proceeds k _ u).ok hrun.1, ?_⟩
  cases k with
  | zero => cases hrun.1
  | succ k =>
    exact beside_parameterFrom (hk k (Nat.lt_succ_self k)) hpair (hfu.noIn.trans hin) hrun hend start _

/-- What the rest of a list leaves: it is over, or an item is read and it goes on. -/
theorem readsItems_cases (h : ReadsItems (parseLevel k) s s') (hs : s.kind ≠ .punct .closeParen) :
    ∃ u, ReadsItem (parseLevel k) s u ∧ ((u.kind = .punct .closeParen ∧ s' = u) ∨
      (u.kind = .punct .comma ∧ ReadsItems (parseLevel k) u.advance s')) := by
  cases h with
  | none h => exact absurd h hs
  | last h hu => exact ⟨_, h, .inl ⟨hu, rfl⟩⟩
  | more h hu hrest => exact ⟨_, h, .inr ⟨hu, hrest⟩⟩

/-- **Parameters beside a list** end where the list ends, if they reach a closing parenthesis. -/
theorem beside_parametersFrom (hk : ∀ k' < k, c.CarriesAt k' n) : ∀ rounds {s t s' : ParserState},
    ReadsItems (parseLevel k) s s' → c.Pair s t → s.noIn = false →
      c.Beside (· = .punct .closeParen) (parametersFrom (parseLevel n) rounds) t s'
  | 0, s, t, s', h, hp, _ => by
    refine ⟨fun hrun => (by cases hrun), fun hrun => ?_⟩
    cases hrun
    refine ⟨hp.remembers, fun ht => ?_⟩
    have hs : s.kind = .punct .closeParen := hp.kind.symm.trans ht
    cases h with
    | none => exact hp.view.1
    | last h => exact absurd h (not_readsItem_of_closeParen hs)
    | more h => exact absurd h (not_readsItem_of_closeParen hs)
  | rounds + 1, s, t, s', h, hp, hin => by
    by_cases hs : s.kind = .punct .closeParen
    · have hrun : parametersFrom (parseLevel n) (rounds + 1) t = .ok [] t := by
        rw [parametersFrom, get_run, if_pos (ParserState.atMark_iff.2 (hp.kind.trans hs))]
        rfl
      refine ⟨fun h => ?_, fun h' => ?_⟩
      · cases hrun.symm.trans h
      · cases hrun.symm.trans h'
        refine ⟨hp.remembers, fun _ => ?_⟩
        cases h with
        | none => exact hp.view.1
        | last h => exact absurd h (not_readsItem_of_closeParen hs)
        | more h => exact absurd h (not_readsItem_of_closeParen hs)
    obtain ⟨u, hitem, hnext⟩ := readsItems_cases h hs
    have hend : EndsItem u.kind := hnext.symm.imp And.left And.left
    obtain ⟨isRest, v, t', ht', hv, hft, hu, hparameter⟩ := beside_parameter hk hp hin hitem hend t.offset
    have ht : (parametersFrom (parseLevel n) (rounds + 1)) t =
        (parameterFrom (parseLevel n) t.offset isRest >>= fun parameter => get >>= fun w =>
          if isRest || w.atMark .closeParen then pure [parameter]
          else expect .comma >>= fun _ => parametersFrom (parseLevel n) rounds >>= fun others =>
            pure (parameter :: others)) t' := by
      rw [parametersFrom, get_run, if_neg (by rw [ParserState.atMark_iff, hp.kind]; exact hs)]
      exact bind_of_ok ht'
    -- After the parameter both parses are at a comma, or the parameters break off.
    have hrest : ∀ parameter w, parameterFrom (parseLevel n) t.offset isRest t' = .ok parameter w →
        w.kind = .punct .comma → u.kind = .punct .comma ∧ ReadsItems (parseLevel k) u.advance s' ∧
          c.Pair u.advance w.advance := by
      intro parameter w hw hcomma
      obtain ⟨hremembers, hstream⟩ := hparameter.ok hw
      have hstream := hstream (.inl hcomma)
      have hkind : u.kind = .punct .comma := by
        rw [ParserState.kind, ParserState.current, ← hstream]
        exact hcomma
      have hfw := ((built_parameterFrom _ _ : Built 0 t' _ _).proceeds (parseLevel_proceeds n) t' (.rfl t')).ok hw
      rcases hnext with ⟨hclose, -⟩ | ⟨-, hreads⟩
      · rw [hkind] at hclose
        cases hclose
      · exact ⟨hkind, hreads,
          (hp.of_follows (hv.trans hu) (hft.trans hfw) hstream hremembers).advance⟩
    refine ⟨fun hrun => ?_, fun hrun => ?_⟩ <;> rw [ht] at hrun
    · rcases bind_error.1 hrun with hrun | ⟨parameter, w, hw, hrun⟩
      · exact hparameter.error hrun
      · rw [get_run] at hrun
        split at hrun
        · cases hrun
        · rcases bind_error.1 hrun with hrun | ⟨_, x, hx, hrun⟩
          · exact expect_error hrun ▸ (hparameter.ok hw).1
          · obtain ⟨hcomma, -, rfl⟩ := expect_ok hx
            obtain ⟨-, hreads, hpair⟩ := hrest _ _ hw hcomma
            have ih := beside_parametersFrom hk rounds hreads hpair ((hv.trans hu).noIn.trans hin)
            rcases bind_error.1 hrun with hrun | ⟨_, _, _, hrun⟩
            · exact ih.error hrun
            · cases hrun
    · obtain ⟨parameter, w, hw, hrun⟩ := bind_ok.1 hrun
      rw [get_run] at hrun
      split at hrun
      · cases hrun
        obtain ⟨hremembers, hstream⟩ := hparameter.ok hw
        refine ⟨hremembers, fun hclose => ?_⟩
        have hstream := hstream (.inr hclose)
        rcases hnext with ⟨-, rfl⟩ | ⟨hcomma, -⟩
        · exact hstream
        · rw [ParserState.kind, ParserState.current, hstream] at hclose
          cases hclose.symm.trans hcomma
      · obtain ⟨_, x, hx, hrun⟩ := bind_ok.1 hrun
        obtain ⟨hcomma, -, rfl⟩ := expect_ok hx
        obtain ⟨-, hreads, hpair⟩ := hrest _ _ hw hcomma
        obtain ⟨others, y, hy, hrun⟩ := bind_ok.1 hrun
        cases hrun
        exact (beside_parametersFrom hk rounds hreads hpair ((hv.trans hu).noIn.trans hin)).ok hy

end Comparison

end Typeahead
