/-
# Clean runs

What a clean run of each kind of step says of the runs inside it. A statement or class
element that is skipped leaves a fault behind, so a clean run skips none; and a clean run of
a choice has either committed to an arrow function or read what stands in parentheses.

Key definition: `Committed`.
Key theorems: `CleanRun.of_listedStatement`, `CleanRun.of_listedElement`,
`CleanRun.of_chooseArrow`.
-/
import Typeahead.Proofs.Parse.Statements

namespace Typeahead

open Parse Grammar

variable {ι α β : Type} {g : Grammar} {s t : ParserState}

namespace CleanRun

theorem of_nested {x : Parse α} {a : α} (h : CleanRun (nested x) s a t) :
    s.depth < maxParseDepth ∧ ∃ u, CleanRun x { s with depth := s.depth + 1 } a u ∧
      t = { u with depth := u.depth - 1 } := by
  obtain ⟨hrun, hc⟩ := h
  obtain ⟨hd, u, hx, rfl⟩ := nested_ok hrun
  exact ⟨hd, u, ⟨hx, hc⟩, rfl⟩

theorem of_withNoIn {x : Parse α} {noIn : Bool} {a : α} (h : CleanRun (withNoIn noIn x) s a t) :
    ∃ u, CleanRun x { s with noIn } a u ∧ t = { u with noIn := s.noIn } := by
  obtain ⟨hrun, hc⟩ := h
  rw [withNoIn] at hrun
  split at hrun <;> rename_i hx <;> cases hrun
  exact ⟨_, ⟨hx, hc⟩, rfl⟩

theorem of_expect {mark : Punctuator} {a : Token} (h : CleanRun (expect mark) s a t) :
    s.kind = .punct mark ∧ a = s.current ∧ t = s.advance := expect_ok h.1

end CleanRun

/-- After a fault is collected there is one more than before. -/
theorem not_clean_of_report {u : ParserState} {fault : ParseError} (hs : s.Follows u)
    (ht : (u.report fault).Follows t) : t.faults ≠ s.faults := by
  intro h
  have h1 := hs.faults.length_le
  have h2 := ht.faults.length_le
  rw [h] at h2
  simp only [ParserState.report, List.length_cons] at h2
  omega

/-- A clean run over a statement of a list is one over a statement. -/
theorem CleanRun.of_listedStatement (hg : g.Proceeds) {o : Option Node}
    (h : CleanRun (listedStatement g) s o t) : ∃ n, o = some n ∧ CleanRun (g .statement) s n t := by
  obtain ⟨hrun, hc⟩ := h
  rcases listedStatement_cases g s with ⟨n, u, hu, hread⟩ | ⟨e, u, hu, ⟨-, hskip⟩ | ⟨-, hfail⟩⟩
  · cases hread.symm.trans hrun
    exact ⟨n, rfl, hu, hc⟩
  · cases hskip.symm.trans hrun
    exact absurd hc (not_clean_of_report ((hg _ _).error hu) (follows_skipStatement _ _))
  · cases hfail.symm.trans hrun

theorem CleanRun.listedStatement {n : Node} (h : CleanRun (g .statement) s n t) :
    CleanRun (listedStatement g) s (some n) t :=
  ⟨listedStatement_of_ok h.1, h.2⟩

/-- A clean run over an element of a class is one over a semicolon or over an element. -/
theorem CleanRun.of_listedElement (hp : Proceeds (classElement g) s) {o : Option Node}
    (h : CleanRun (listedElement g) s o t) :
    (s.atMark .semicolon = true ∧ o = none ∧ t = s.advance) ∨
      (s.atMark .semicolon = false ∧ CleanRun (classElement g) s o t) := by
  obtain ⟨hrun, hc⟩ := h
  rcases listedElement_cases g s with
    ⟨hs, hsemicolon⟩ | ⟨hs, ⟨o', u, hu, hread⟩ | ⟨e, u, hu, ⟨-, hskip⟩ | ⟨-, hfail⟩⟩⟩
  · cases hsemicolon.symm.trans hrun
    exact .inl ⟨hs, rfl, rfl⟩
  · cases hread.symm.trans hrun
    exact .inr ⟨hs, hu, hc⟩
  · cases hskip.symm.trans hrun
    exact absurd hc (not_clean_of_report (hp.error hu) (follows_skipElement _ _))
  · cases hfail.symm.trans hrun

theorem CleanRun.listedElement {o : Option Node} (hs : s.atMark .semicolon = false)
    (h : CleanRun (classElement g) s o t) : CleanRun (listedElement g) s o t :=
  ⟨listedElement_of_ok hs h.1, h.2⟩

/-! ### Choices -/

/-- A clean run over parameters after a parenthesis, up to the one before an arrow. -/
structure ReadsParameters (g : Grammar) (s : ParserState) (params : List Node) (u : ParserState) :
    Prop where
  opens : s.kind = .punct .openParen
  reads : CleanRun (parametersFrom g s.advance.rounds) s.advance params u
  closes : u.kind = .punct .closeParen
  arrow : isArrow u.advance.current = true

theorem parameterList_ok {params : List Node} : parameterList g s = .ok params t ↔
    s.kind = .punct .openParen ∧ ∃ u, parametersFrom g s.advance.rounds s.advance = .ok params u ∧
      u.kind = .punct .closeParen ∧ t = u.advance := by
  constructor
  · intro h
    obtain ⟨_, v, hv, h⟩ := bind_ok.1 h
    obtain ⟨hopen, -, rfl⟩ := expect_ok hv
    rw [get_run] at h
    obtain ⟨ps, u, hu, h⟩ := bind_ok.1 h
    obtain ⟨_, w, hw, h⟩ := bind_ok.1 h
    cases h
    obtain ⟨hclose, -, rfl⟩ := expect_ok hw
    exact ⟨hopen, u, hu, hclose, rfl⟩
  · rintro ⟨hopen, u, hu, hclose, rfl⟩
    rw [parameterList, bind_of_ok (expect_of_atMark (ParserState.atMark_iff.2 hopen)), get_run,
      bind_of_ok hu, bind_of_ok (expect_of_atMark (ParserState.atMark_iff.2 hclose))]
    rfl

/-- A parameter list here is known to be in vain. -/
def ParserState.remembersHere (s : ParserState) : Bool :=
  s.remembersArrows && s.failedArrows.contains s.position

theorem arrowParameters?_some {params : List Node} : arrowParameters? g s = .ok (some params) t ↔
    s.remembersHere = false ∧ parameterList g s = .ok params t ∧ isArrow t.current = true := by
  rw [arrowParameters?, ParserState.remembersHere]
  constructor
  · intro h
    split at h
    · cases h
    · rename_i hm
      split at h
      · rename_i hp
        split at h <;> rename_i ha <;> cases h
        exact ⟨by simpa using hm, hp, ha⟩
      · cases h
  · rintro ⟨hm, hp, ha⟩
    rw [if_neg (by simp only [hm]; simp), hp]
    simp only [ha, ↓reduceIte]

theorem CleanRun.of_chooseArrow {inner : Parse ι} {rest : ι → Parse α} {commit : List Node → Parse α}
    {b : α} (hp : ∀ rounds t, Proceeds (parametersFrom g rounds) t) (hi : ∀ t, Proceeds inner t)
    (hr : ∀ x t, Proceeds (rest x) t) (hc : ∀ params t, Proceeds (commit params) t)
    (h : CleanRun (chooseArrow g inner rest commit) s b t) :
    (∃ params u, s.remembersHere = false ∧ ReadsParameters g s params u ∧
      CleanRun (commit params) u.advance.advance b t) ∨
    (∃ s' x u, arrowParameters? g s = .ok none s' ∧ s.Follows s' ∧ s.SameView s' ∧
      s'.faults = s.faults ∧ s.kind = .punct .openParen ∧
      CleanRun inner { s'.advance with noIn := false } x u ∧ u.kind = .punct .closeParen ∧
      CleanRun (rest x) (ParserState.advance { u with noIn := s.noIn }) b t) := by
  have hinner : ∀ v, Proceeds (allowIn inner) v := fun v => .withNoIn (hi _)
  have hrest : ∀ r v, Proceeds (match r with
      | some params => do
        let _ ← expect .arrow
        commit params
      | none => do
        let _ ← expect .openParen
        let x ← allowIn inner
        let _ ← expect .closeParen
        rest x) v
    | some params, _ => (Proceeds.expectKind _).bind fun _ _ _ => hc _ _
    | none, _ => (Proceeds.expectKind _).bind fun _ _ _ => (hinner _).bind fun _ _ _ =>
        (Proceeds.expectKind _).bind fun _ _ _ => hr _ _
  obtain ⟨r, s', hs', h⟩ := h.of_bind (.arrowParameters? (.parameterList hp)) hrest
  have hfollows := (Proceeds.arrowParameters? (.parameterList (s := s) hp)).ok hs'.1
  cases r with
  | some params =>
    obtain ⟨_, w, hw, h⟩ := h.of_bind (.expectKind _) fun _ _ => hc _ _
    obtain ⟨-, -, rfl⟩ := hw.of_expect
    obtain ⟨hm, hlist, ha⟩ := arrowParameters?_some.1 hs'.1
    obtain ⟨hopen, u, hu, hclose, rfl⟩ := parameterList_ok.1 hlist
    exact .inl ⟨params, u, hm, ⟨hopen, ⟨hu, hs'.2⟩, hclose, ha⟩, h⟩
  | none =>
    have hstream := arrowParameters?_none hs'.1
    obtain ⟨_, w, hw, h⟩ := h.of_bind (.expectKind _) fun _ _ => (hinner _).bind fun _ _ _ =>
      (Proceeds.expectKind _).bind fun _ _ _ => hr _ _
    obtain ⟨hopen, -, rfl⟩ := hw.of_expect
    obtain ⟨x, v, hv, h⟩ := h.of_bind (hinner _) fun _ _ => (Proceeds.expectKind _).bind fun _ _ _ =>
      hr _ _
    obtain ⟨u, hu, rfl⟩ := hv.of_withNoIn
    obtain ⟨_, y, hy, h⟩ := h.of_bind (.expectKind _) fun _ _ => hr _ _
    obtain ⟨hclose, -, rfl⟩ := hy.of_expect
    have hview : s.SameView s' := ⟨hstream, hfollows.noIn⟩
    refine .inr ⟨s', x, u, hs'.1, hfollows, hview, hs'.2, hview.kind ▸ hopen, hu, hclose, ?_⟩
    rw [← hfollows.noIn]
    exact h

section

variable {inner : Parse ι} {rest : ι → Parse α} {commit : List Node → Parse α} {s' u : ParserState}

/-- After the parameters and the arrow the choice goes on with the body. -/
theorem chooseArrow_of_some {params : List Node} (h : arrowParameters? g s = .ok (some params) t) :
    chooseArrow g inner rest commit s = commit params t.advance := by
  obtain ⟨-, -, harrow⟩ := arrowParameters?_some.1 h
  rw [isArrow, Bool.and_eq_true, beq_iff_eq] at harrow
  exact (bind_of_ok h).trans (bind_of_ok (expect_of_atMark (ParserState.atMark_iff.2 harrow.1)))

/-- After a list in parentheses the choice goes on with the rest. -/
theorem chooseArrow_of_none (h : arrowParameters? g s = .ok none s') (hopen : s'.kind = .punct .openParen)
    {x : ι} (hx : inner { s'.advance with noIn := false } = .ok x u) (hclose : u.kind = .punct .closeParen) :
    chooseArrow g inner rest commit s = rest x (ParserState.advance { u with noIn := s'.noIn }) := by
  have hclose : ParserState.kind { u with noIn := s'.noIn } = .punct .closeParen := hclose
  exact (bind_of_ok h).trans <|
    (bind_of_ok (expect_of_atMark (ParserState.atMark_iff.2 hopen))).trans <|
    (bind_of_ok (withNoIn_of_ok (s := s'.advance) hx)).trans <|
    bind_of_ok (expect_of_atMark (ParserState.atMark_iff.2 hclose))

end

end Typeahead
