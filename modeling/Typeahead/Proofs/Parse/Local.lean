/-
# A parse depends only on what lies ahead

A parse never goes back behind where it began, so two grammars that agree from there on make no
difference to it.

Key definitions: `ParserState.Ahead`, `AgreeFrom`, `AgreeBeyond`.
Key theorem: `Built.congr`.
-/
import Typeahead.Proofs.Parse.Progress

namespace Typeahead

open Parse Grammar

variable {α β ι : Type} {s t u : ParserState} {g k : Grammar}

namespace ParserState

/-- The state `t` is at a place among the tokens of `s` that a parse from there can come to. -/
structure Ahead (s t : ParserState) : Prop where
  tokens : t.stream.tokens = s.stream.tokens
  position : s.position ≤ t.position
  bound : t.position ≤ max s.position s.stream.lastIndex

theorem Ahead.rfl (s : ParserState) : s.Ahead s := ⟨.refl _, Nat.le_refl _, Nat.le_max_left ..⟩

theorem Ahead.of_stream (h : t.stream = s.stream) : s.Ahead t :=
  ⟨congrArg TokenStream.tokens h, Nat.le_of_eq (congrArg TokenStream.position h.symm),
    Nat.le_trans (Nat.le_of_eq (congrArg TokenStream.position h)) (Nat.le_max_left ..)⟩

theorem Ahead.trans (h : s.Ahead t) (h' : t.Ahead u) : s.Ahead u where
  tokens := h'.tokens.trans h.tokens
  position := Nat.le_trans h.position h'.position
  bound := by
    have hlast : t.stream.lastIndex = s.stream.lastIndex := by
      rw [TokenStream.lastIndex, h.tokens, TokenStream.lastIndex]
    have := h.bound
    have := h'.bound
    omega

theorem Follows.ahead (h : s.Follows t) : s.Ahead t := ⟨h.tokens, h.position, h.bound⟩

end ParserState

/-- The grammars do the same from a state on. -/
def AgreeFrom (g k : Grammar) (s : ParserState) : Prop := ∀ q t, s.Ahead t → g q t = k q t

/-- The grammars do the same once the current token is left behind. -/
def AgreeBeyond (g k : Grammar) (s : ParserState) : Prop :=
  ∀ q t, s.Ahead t → s.position < t.position → g q t = k q t

theorem AgreeFrom.later (h : AgreeFrom g k s) (ht : s.Ahead t) : AgreeFrom g k t :=
  fun q u hu => h q u (ht.trans hu)

theorem AgreeBeyond.later (h : AgreeBeyond g k s) (ht : s.Ahead t) : AgreeBeyond g k t :=
  fun q u hu hlt => h q u (ht.trans hu) (Nat.lt_of_le_of_lt ht.position hlt)

theorem AgreeBeyond.from (h : AgreeBeyond g k s) (ht : s.Ahead t) (hlt : s.position < t.position) :
    AgreeFrom g k t :=
  fun q u hu => h q u (ht.trans hu) (Nat.lt_of_lt_of_le hlt hu.position)

/-! ### Parses that do the same -/

theorem bind_congr_run {x y : Parse α} {f f' : α → Parse β} (hx : x s = y s)
    (hf : ∀ a t, x s = .ok a t → f a t = f' a t) : (x >>= f) s = (y >>= f') s := by
  cases hrun : x s with
  | ok a t => rw [bind_of_ok hrun, bind_of_ok (hx.symm.trans hrun), hf a t hrun]
  | error e t => rw [bind_of_error hrun, bind_of_error (hx.symm.trans hrun)]

theorem attempt_congr {x y : Parse α} (h : x s = y s) : attempt x s = attempt y s := by
  rw [attempt, attempt, h]

theorem nested_congr {x y : Parse α} (h : x { s with depth := s.depth + 1 } = y { s with depth := s.depth + 1 }) :
    nested x s = nested y s := by
  rw [nested, nested, h]

theorem withNoIn_congr {noIn : Bool} {x y : Parse α} (h : x { s with noIn } = y { s with noIn }) :
    withNoIn noIn x s = withNoIn noIn y s := by
  rw [withNoIn, withNoIn, h]

theorem statementOrSkip_congr {x y : Parse Node} (h : x s = y s) : statementOrSkip x s = statementOrSkip y s := by
  rw [statementOrSkip, statementOrSkip, get_run, get_run]
  exact bind_of_eq (attempt_congr h)

theorem listedStatement_congr (h : g .statement s = k .statement s) : listedStatement g s = listedStatement k s := by
  rw [listedStatement, listedStatement, get_run, get_run]
  split
  · exact statementOrSkip_congr h
  · exact bind_of_eq h

theorem listedElement_congr (h : ∀ t, s.Follows t → classElement g t = classElement k t) :
    listedElement g s = listedElement k s := by
  refine bind_congr_run rfl fun b t hb => ?_
  have ht := (Proceeds.nextIf _).ok hb
  cases b with
  | true => simp only [↓reduceIte]
  | false =>
    simp only [Bool.false_eq_true, ↓reduceIte]
    rw [get_run, get_run]
    exact bind_of_eq (attempt_congr (h t ht))

/-- The parameters of an arrow function are tried behind a parenthesis. -/
theorem arrowParameters?_congr (h : s.atMark .openParen = true →
    ∀ rounds, parametersFrom g rounds s.advance = parametersFrom k rounds s.advance) :
    arrowParameters? g s = arrowParameters? k s := by
  have hlist : parameterList g s = parameterList k s := by
    refine bind_congr_run rfl fun a t ha => ?_
    obtain ⟨hmark, -, rfl⟩ := expect_ok ha
    rw [get_run, get_run]
    exact bind_of_eq (h (beq_iff_eq.2 hmark) _)
  rw [arrowParameters?, arrowParameters?, hlist]

/-- Whichever it is, it is read behind an arrow or a parenthesis. -/
theorem chooseArrow_congr {inner : Grammar → Parse ι} {rest : ι → Grammar → Parse α}
    {commit : List Node → Grammar → Parse α} (hparams : arrowParameters? g s = arrowParameters? k s)
    (hread : ∀ {r u mark v}, ∀ {token : Token}, arrowParameters? g s = .ok r u →
      Parse.expect mark u = .ok token v → AgreeFrom g k v)
    (hinner : ∀ t, Proceeds (inner g) t) (hi : ∀ t, AgreeFrom g k t → inner g t = inner k t)
    (hr : ∀ x t, AgreeFrom g k t → rest x g t = rest x k t)
    (hc : ∀ params t, AgreeFrom g k t → commit params g t = commit params k t) :
    chooseArrow g (inner g) (fun x => rest x g) (fun params => commit params g) s =
      chooseArrow k (inner k) (fun x => rest x k) (fun params => commit params k) s := by
  refine bind_congr_run hparams fun r u hu => ?_
  cases r with
  | some params => exact bind_congr_run rfl fun _ v hv => hc params v (hread hu hv)
  | none =>
    refine bind_congr_run rfl fun _ v hv => ?_
    have hk := hread hu hv
    refine bind_congr_run (withNoIn_congr (hi _ (hk.later (.of_stream rfl)))) fun x w hw => ?_
    have hvw := ((Proceeds.withNoIn (hinner _)).ok hw).ahead
    exact bind_congr_run rfl fun _ y hy => hr x y (hk.later (hvw.trans ((Proceeds.expectKind _).ok hy).ahead))

/-- **What is built does the same** over grammars that agree from where it starts. -/
theorem Built.congr {last : Nat} {O : α → Prop} {x : Grammar → Parse α} (h : Built last s O x)
    (hg : g.Proceeds) : ∀ t, s.SameView t → AgreeFrom g k t → x g t = x k t := by
  induction h with
  | pure a => exact fun t _ _ => rfl
  | bind hx _ _ ihx ihf =>
    exact fun t ht hk => bind_congr_run (ihx t ht hk) fun a u hu =>
      ihf a u u (.rfl u) (hk.later ((hx.proceeds hg t ht).ok hu).ahead)
  | same hxy _ ih => exact fun t ht hk => (hxy g t ht).trans ((ih t ht hk).trans (hxy k t ht).symm)
  | weaken _ _ ih => exact ih
  | next _ _ ih =>
    intro t ht hk
    refine bind_congr_run rfl fun a u hu => ?_
    cases hu
    rw [ht.current]
    exact ih _ ht.advance (hk.later t.follows_advance.ahead)
  | nextArrow _ _ => exact fun t _ _ => rfl
  | fail e _ => exact fun t _ _ => rfl
  | call q => exact fun t _ hk => hk q t (.rfl t)
  | nested _ ih => exact fun t ht hk => nested_congr (ih _ ht (hk.later (.of_stream rfl)))
  | withNoIn noIn _ ih => exact fun t ht hk => withNoIn_congr (ih _ ⟨ht.1, rfl⟩ (hk.later (.of_stream rfl)))
  | closeBrace => exact fun t _ _ => rfl
  | listedStatement => exact fun t _ hk => listedStatement_congr (hk _ t (.rfl t))
  | listedElement _ ih =>
    exact fun t _ hk => listedElement_congr fun u hu => ih u u (.rfl u) (hk.later hu.ahead)
  | chooseArrow _ hi hp _ _ ihi ihp ihr ihc =>
    intro t ht hk
    refine chooseArrow_congr (arrowParameters?_congr fun _ rounds =>
      ihp rounds _ _ (.rfl _) (hk.later t.follows_advance.ahead)) (fun hu hv => ?_)
      (fun u => (hi u).proceeds hg u (.rfl u)) (fun u => ihi u u (.rfl u)) (fun x u => ihr x u u (.rfl u))
      fun params u => ihc params u u (.rfl u)
    have htu := (Proceeds.arrowParameters? (.parameterList fun rounds v =>
      (hp rounds v).proceeds hg v (.rfl v))).ok hu
    exact hk.later (htu.trans ((Proceeds.expectKind _).ok hv)).ahead

end Typeahead
