/-
# Where nothing begins

At the end of the input, at `=>`, and at the marks that come after an expression, every
production fails. So a clean run that starts at the end of the input or at `=>` reads nothing.

Key definitions: `Refuses`, `BeginsNothing`.
Key theorems: `parseLevel_refuses`, `Built.idles`.
-/
import Typeahead.Proofs.Parse.Clean

namespace Typeahead

open Parse Grammar

variable {α β : Type} {g : Grammar} {s t : ParserState}

/-- The parse fails in the state. -/
def Refuses (x : Parse α) (s : ParserState) : Prop := ∃ e t, x s = .error e t

/-- No production begins with the current token. -/
def ParserState.BeginsNothing (s : ParserState) : Prop :=
  s.kind = .endOfInput ∨ s.kind = .punct .arrow ∨ s.kind = .punct .ellipsis ∨
    s.kind = .punct .closeParen ∨ s.kind = .punct .comma

theorem ParserState.IsStuck.beginsNothing (h : s.IsStuck) : s.BeginsNothing := by
  rcases h with h | h
  · exact .inl h
  · exact .inr (.inl h)

namespace Refuses

theorem bind {x : Parse α} {f : α → Parse β} (h : Refuses x s) : Refuses (x >>= f) s := by
  obtain ⟨e, t, h⟩ := h
  exact ⟨e, t, bind_of_error h⟩

theorem look {f : ParserState → Parse α} (h : Refuses (f s) s) : Refuses (get >>= f) s := h

theorem nested {x : Parse α} (h : Refuses x { s with depth := s.depth + 1 }) :
    Refuses (nested x) s := by
  obtain ⟨e, t, h⟩ := h
  rw [Refuses, Parse.nested]
  split
  · exact ⟨_, _, rfl⟩
  · rw [h]
    exact ⟨_, _, rfl⟩

theorem expect {mark : Punctuator} (h : s.kind ≠ .punct mark) : Refuses (expect mark) s :=
  ⟨_, _, if_neg (by simpa using h)⟩

theorem not_clean {x : Parse α} {a : α} (h : Refuses x s) : ¬ CleanRun x s a t := by
  rintro ⟨hrun, _⟩
  obtain ⟨e, u, h⟩ := h
  rw [h] at hrun
  cases hrun

end Refuses

/-! ### Expressions -/

theorem primary_refuses (h : s.BeginsNothing) : Refuses (primary g) s := by
  refine .look ?_
  rcases h with h | h | h | h | h <;> rw [h] <;> exact ⟨_, _, rfl⟩

theorem leftHandSide_refuses (h : s.BeginsNothing) : Refuses (leftHandSide g) s := by
  have hnew : s.atKeyword .newWord = false := by
    rw [ParserState.atKeyword]
    rcases h with h | h | h | h | h <;> rw [h] <;> rfl
  refine .look ?_
  simp only [hnew, Bool.false_eq_true, ↓reduceIte]
  exact (primary_refuses h).bind

theorem unary_refuses (h : s.BeginsNothing) : Refuses (unary g) s := by
  have hunary : unaryOperator? ({ s with depth := s.depth + 1 } : ParserState).current = none := by
    change unaryOperator? s.current = none
    rw [unaryOperator?]
    rcases h with h | h | h | h | h <;> rw [ParserState.kind] at h <;> rw [h]
  have hupdate : isUpdateOperator ({ s with depth := s.depth + 1 } : ParserState).kind = false := by
    change isUpdateOperator s.kind = false
    rcases h with h | h | h | h | h <;> rw [h] <;> rfl
  refine .nested (.look ?_)
  simp only [hunary, hupdate, Bool.false_eq_true, ↓reduceIte]
  exact (leftHandSide_refuses (s := { s with depth := s.depth + 1 }) h).bind

theorem binary_refuses (least : Nat) (h : s.BeginsNothing) : Refuses (binary g least) s :=
  .look (unary_refuses h).bind

theorem assignment_refuses (h : s.BeginsNothing) : Refuses (assignment g) s :=
  .nested (.look (Refuses.bind (.look (binary_refuses (s := { s with depth := s.depth + 1 }) 1 h).bind)))

theorem newExpression_refuses (h : s.BeginsNothing) : Refuses (newExpression g) s := by
  have hnew : ¬ (s.kind == .keyword .newWord) = true := by
    rcases h with h | h | h | h | h <;> rw [h] <;> simp
  exact .look (Refuses.bind ⟨_, _, if_neg hnew⟩)

theorem method_refuses (isAsync : Bool) (h : s.BeginsNothing) : Refuses (method g isAsync) s := by
  have hopen : s.kind ≠ .punct .openParen := by
    rcases h with h | h | h | h | h <;> rw [h] <;> simp
  exact .look (Refuses.bind (Refuses.bind (Refuses.bind (.expect hopen))))

theorem statement_refuses (h : s.BeginsNothing) : Refuses (statement g) s := by
  have hword : ∀ word, s.atKeyword word = false := fun word => by
    rw [ParserState.atKeyword]
    rcases h with h | h | h | h | h <;> rw [h] <;> rfl
  have hvariables : beginsVariables s = false := by
    simp only [beginsVariables, beginsLet, hword, Bool.or_self, Bool.false_and]
  have hexpression : Refuses (expressionStatement g) { s with depth := s.depth + 1 } :=
    .look (Refuses.bind (.look (assignment_refuses (s := { s with depth := s.depth + 1 }) h).bind))
  have hbegins : beginsVariables { s with depth := s.depth + 1 } = false := hvariables
  have hkind : ({ s with depth := s.depth + 1 } : ParserState).kind = s.kind := rfl
  refine .nested (.look ?_)
  rcases h with h | h | h | h | h <;> simp only [hbegins, hkind, h] <;> exact hexpression

/-! ### All productions -/

/-- **Every production fails where nothing begins.** -/
theorem parseLevel_refuses (h : s.BeginsNothing) : ∀ levels q, Refuses (parseLevel levels q) s
  | 0, _ => ⟨_, _, rfl⟩
  | levels + 1, q => by
    cases q with
    | assignment => exact assignment_refuses h
    | unary => exact unary_refuses h
    | binary least => exact binary_refuses least h
    | leftHandSide => exact leftHandSide_refuses h
    | newExpression => exact newExpression_refuses h
    | method isAsync => exact method_refuses isAsync h
    | statement => exact statement_refuses h

theorem closeBrace_stuck {stop : Nat} (hs : s.IsStuck) (h : closeBrace s = .ok stop t)
    {u : ParserState} (hu : s.Alike u) : closeBrace u = .ok stop u := by
  rcases closeBrace_ok.1 h with ⟨hend, rfl, -⟩ | ⟨-, hbrace, -⟩
  · exact closeBrace_ok.2 (.inl ⟨hu.endsBlock.trans hend, by rw [hu.view.current], rfl⟩)
  · exact absurd hs (ParserState.not_isStuck hbrace (by simp) (by simp))

/-- **At the end of the input and at `=>` a clean run does nothing**, nor does it from a state
that is alike. -/
theorem Built.idles {last levels : Nat} {s : ParserState} {O : α → Prop} {x : Grammar → Parse α}
    (h : Built last s O x) : ∀ {t u v : ParserState} {a : α}, s.SameView t → t.IsStuck →
      CleanRun (x (parseLevel levels)) t a u → t.Alike v → x (parseLevel levels) v = .ok a v := by
  have hg := parseLevel_proceeds levels
  induction h with
  | pure a =>
    intro t u v b _ _ h _
    rw [h.of_pure.1]
    rfl
  | bind hx hf _ ihx ihf =>
    intro t u v b ht hs h hv
    obtain ⟨a, w, hw, h⟩ := h.of_bind (hx.proceeds hg t ht)
      fun a w => (hf a w).proceeds hg w (.rfl w)
    cases (ihx ht hs hw (.rfl t)).symm.trans hw.1
    exact (bind_of_ok (ihx ht hs hw hv)).trans (ihf a t (.rfl t) hs h hv)
  | same hxy _ ih =>
    intro t u v a ht hs h hv
    exact (hxy _ v (ht.trans hv.view)).trans (ih ht hs (h.of_eq (hxy _ t ht) rfl) hv)
  | weaken _ _ ih => exact ih
  | next hs => exact fun ht hs' => absurd (ht.isStuck.1 hs') hs
  | nextArrow hs => exact fun ht hs' => absurd (ht.isStuck.1 hs') hs
  | fail e _ => exact fun _ _ h => by cases h.1
  | call q => exact fun _ hs h => absurd h (parseLevel_refuses hs.beginsNothing _ q).not_clean
  | nested _ ih =>
    intro t u v a ht hs h hv
    obtain ⟨hd, w, hw, -⟩ := h.of_nested
    have hdeeper : ParserState.Alike { t with depth := t.depth + 1 } { v with depth := v.depth + 1 } :=
      ⟨hv.view, congrArg (· + 1) hv.depth, hv.recovering⟩
    exact nested_of_ok (t := { v with depth := v.depth + 1 }) (hv.depth ▸ hd)
      (ih (t := { t with depth := t.depth + 1 }) ht hs hw hdeeper)
  | withNoIn noIn _ ih =>
    intro t u v a ht hs h hv
    obtain ⟨w, hw, -⟩ := h.of_withNoIn
    exact withNoIn_of_ok (t := { v with noIn }) (ih (t := { t with noIn }) ⟨ht.1, rfl⟩ hs hw (hv.withNoIn noIn))
  | closeBrace => exact fun _ hs h hv => closeBrace_stuck hs h.1 hv
  | listedStatement =>
    intro t u v o _ hs h
    obtain ⟨n, rfl, hn⟩ := h.of_listedStatement hg
    exact absurd hn (parseLevel_refuses hs.beginsNothing _ _).not_clean
  | listedElement hx ih =>
    intro t u v o _ hs h hv
    rcases h.of_listedElement ((hx t).proceeds hg t (.rfl t))
      with ⟨hsemi, -, -⟩ | ⟨hsemi, h⟩
    · exact absurd hs (ParserState.not_isStuck_of_atMark hsemi (by simp))
    · exact listedElement_of_ok ((hv.view.atMark _).trans hsemi) (ih t (.rfl t) hs h hv)
  | chooseArrow _ hi hp hr hc =>
    intro t u v b _ hs h
    have hopen : t.kind ≠ .punct .openParen := by
      rcases hs with hs | hs <;> rw [hs] <;> simp
    rcases h.of_chooseArrow
      (fun rounds v => (hp rounds v).proceeds hg v (.rfl v))
      (fun v => (hi v).proceeds hg v (.rfl v))
      (fun x v => (hr x v).proceeds hg v (.rfl v))
      (fun ps v => (hc ps v).proceeds hg v (.rfl v))
      with ⟨_, _, _, hparams, _⟩ | ⟨_, _, _, _, _, _, _, hparen, _⟩
    · exact absurd hparams.opens hopen
    · exact absurd hparen hopen

theorem Built.sticks {last levels : Nat} {s : ParserState} {O : α → Prop} {x : Grammar → Parse α}
    (h : Built last s O x) {u : ParserState} {a : α} (ht : s.SameView t) (hs : t.IsStuck)
    (hrun : CleanRun (x (parseLevel levels)) t a u) : u.stream = t.stream := by
  cases (h.idles ht hs hrun (.rfl t)).symm.trans hrun.1
  rfl

end Typeahead
