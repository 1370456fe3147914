/-
# Choices carry over

Where one parse has committed to an arrow function the other does too: it reads the same
parameters, and nothing it remembers speaks against them. Where one has read a list in
parentheses the other has found no arrow after its parameters, or the first cannot go on.
So whatever is built carries over.

Key theorems: `Comparison.Carries.chooseArrow`, `Comparison.carriesAt`.
-/
import Typeahead.Proofs.Parse.Beside

namespace Typeahead

open Parse Grammar

/-- After parameters that are tried in vain the parse is back where they would begin. -/
theorem follows_of_vain {k : Nat} {s s' : ParserState} (hs : arrowParameters? (parseLevel k) s = .ok none s') :
    s.Follows s' :=
  (Proceeds.arrowParameters? ((begins_parameterList : Begins 0 s (fun _ => True) _).built.proceeds
    (parseLevel_proceeds k) s (.rfl s))).ok hs

namespace Comparison

variable {α ι : Type} {c : Comparison} {k n : Nat} {s t t' u v : ParserState} {O : α → Prop}

/-- Where the first parse commits the second has not remembered that this is in vain. -/
theorem not_remembersHere (hp : c.Pair s t) {params : List Node}
    (h : ReadsParameters (parseLevel k) s params u) : t.remembersHere = false := by
  rw [ParserState.remembersHere, Bool.and_eq_false_iff, Bool.eq_false_iff, Bool.eq_false_iff,
    ← not_and_or]
  rintro ⟨hremembers, hcontains⟩
  obtain ⟨hmemory, -, hsound⟩ := c.sound (hp.memory'.symm.trans hremembers)
  have hposition : t.position = s.position := congrArg TokenStream.position hp.view.1
  have hback := hp.remembers (hp.memory'.symm.trans hremembers) t.position
    (List.contains_iff_mem.1 hcontains) (hposition.symm ▸ hp.started)
  refine hsound t.position ⟨k, s, params, u, ?_, h⟩ hback
  exact ⟨hp.tokens, hposition.symm, hp.mode, hp.memory.trans hmemory⟩

/-- Where the first parse commits so does the second, if it reads the same parameters. -/
theorem arrowParameters?_carried (hp : c.Pair s t) {params : List Node}
    (hread : ReadsParameters (parseLevel k) s params u)
    (hv : CleanRun (parametersFrom (parseLevel n) s.advance.rounds) t.advance params v) (hpv : c.Pair u v) :
    arrowParameters? (parseLevel n) t = .ok (some params) v.advance := by
  have hrounds : t.advance.rounds = s.advance.rounds := by
    rw [ParserState.rounds, hp.advance.view.1, ParserState.rounds]
  have hlist : parameterList (parseLevel n) t = .ok params v.advance := parameterList_ok.2
    ⟨hp.kind.trans hread.opens, v, hrounds ▸ hv.1, hpv.kind.trans hread.closes, rfl⟩
  refine arrowParameters?_some.2 ⟨not_remembersHere hp hread, hlist, ?_⟩
  rw [hpv.advance.view.current]
  exact hread.arrow

/-- Parameters beside a list, with the parentheses around them. -/
theorem beside_parameterList (hk : ∀ k' < k, c.CarriesAt k' n) (hp : c.Pair s t)
    (hreads : ReadsItems (parseLevel k) { s.advance with noIn := false } u) :
    c.Beside (fun _ => True) (parameterList (parseLevel n)) t u.advance := by
  have hbeside := beside_parametersFrom hk t.advance.rounds hreads (hp.advance.withNoIn false) rfl
  have hremembers : ∀ w noIn, c.Remembers { w with noIn } → c.Remembers w := fun _ _ h => h
  obtain ⟨hok, herror⟩ := IgnoresNoIn.parametersFrom (parseLevel n) t.advance.rounds t.advance false
  refine ⟨fun {e t'} h => ?_, fun {params t'} h => ?_⟩
  · rcases bind_error.1 h with h | ⟨_, w, hw, h⟩
    · exact expect_error h ▸ hp.remembers
    obtain ⟨-, -, rfl⟩ := expect_ok hw
    rw [get_run] at h
    rcases bind_error.1 h with h | ⟨params, w, hw, h⟩
    · exact hremembers t' false (hbeside.error (herror _ _ h))
    · rcases bind_error.1 h with h | ⟨_, _, _, h⟩
      · exact expect_error h ▸ (hbeside.ok (hok _ _ hw)).1
      · cases h
  · obtain ⟨-, w, hw, hclose, rfl⟩ := parameterList_ok.1 h
    obtain ⟨hr, hstream⟩ := hbeside.ok (hok _ _ hw)
    exact ⟨hr, fun _ => congrArg TokenStream.advance (hstream hclose)⟩

/-- Beside a list the second parse remembers the place it tries in vain, and nothing else that
is not found elsewhere. -/
theorem remembers_of_vain (hk : ∀ k' < k, c.CarriesAt k' n) (hp : c.Pair s t)
    (hreads : ReadsItems (parseLevel k) { s.advance with noIn := false } u)
    (ht : arrowParameters? (parseLevel n) t = .ok none t') (hmemory : c.memory' = true) :
    ∀ p ∈ t'.failedArrows, c.start ≤ p → p = t.position ∨ FallsBack c.mode c.tokens p := by
  have hbeside := beside_parameterList hk hp hreads
  have hback : ∀ v, c.Remembers v → ∀ p ∈ (rememberFailure t v).failedArrows, c.start ≤ p →
      p = t.position ∨ FallsBack c.mode c.tokens p := fun v hv p hmem hstart => by
    rcases List.mem_cons.1 hmem with rfl | hmem
    · exact .inl rfl
    · exact .inr (hv hmemory p hmem hstart)
  rw [arrowParameters?] at ht
  split at ht
  · cases ht
    exact fun p hmem hstart => .inr (hp.remembers hmemory p hmem hstart)
  · split at ht
    · split at ht <;> cases ht
      exact hback _ (hbeside.ok ‹_›).1
    · cases ht
      exact hback _ (hbeside.error ‹_›)

/-- What the first parse tries in vain is of no account to the second. -/
theorem Pair.after_vain {s' : ParserState} (hp : c.Pair s t)
    (hs : arrowParameters? (parseLevel k) s = .ok none s') : c.Pair s' t :=
  hp.of_follows (follows_of_vain hs) (.rfl t) (hp.view.1.trans (arrowParameters?_none hs).symm) hp.remembers

/-- Where the first parse has read a list that no arrow follows the second goes on from the same
place, whatever it has remembered. -/
theorem Pair.of_vain (hk : ∀ k' < k, c.CarriesAt k' n) (hp : c.Pair s t)
    (hreads : ReadsItems (parseLevel k) { s.advance with noIn := false } u)
    (harrow : u.advance.kind ≠ .punct .arrow)
    (ht : arrowParameters? (parseLevel n) t = .ok none t') : c.Pair s t' := by
  refine hp.of_follows (.rfl s) (follows_of_vain ht) ((arrowParameters?_none ht).trans hp.view.1)
    fun hmemory p hmem hstart => ?_
  rcases remembers_of_vain hk hp hreads ht hmemory p hmem hstart with rfl | hback
  · -- What was tried in vain is where the first parse found a list and no arrow.
    refine ⟨k, s, u, ⟨hp.tokens, ?_, hp.mode, hp.memory.trans (c.sound hmemory).1⟩, hreads, harrow⟩
    exact (congrArg TokenStream.position hp.view.1).symm
  · exact hback

/-- Where the first parse has read a list that no arrow follows the second tries parameters in vain. -/
theorem arrowParameters?_beside (hk : ∀ k' < k, c.CarriesAt k' n) (hp : c.Pair s t)
    (hreads : ReadsItems (parseLevel k) { s.advance with noIn := false } u)
    (harrow : u.advance.kind ≠ .punct .arrow) :
    ∃ t', arrowParameters? (parseLevel n) t = .ok none t' ∧ t'.faults = t.faults := by
  rw [arrowParameters?]
  split
  · exact ⟨t, rfl, rfl⟩
  · cases hlist : parameterList (parseLevel n) t with
    | ok params t' =>
      have hstream := ((beside_parameterList hk hp hreads).ok hlist).2 trivial
      have hkind : t'.kind = u.advance.kind := by
        rw [ParserState.kind, ParserState.current, hstream]
        rfl
      have hno : isArrow t'.current = false := by
        rw [isArrow, Bool.and_eq_false_iff, beq_eq_false_iff_ne]
        exact .inl fun h => harrow (hkind.symm.trans h)
      simp only [hno, Bool.false_eq_true, ↓reduceIte]
      exact ⟨_, rfl, rfl⟩
    | error e t' => exact ⟨_, rfl, rfl⟩

/-- **A choice carries over** from one parse to another. -/
theorem Carries.chooseArrow (hk : ∀ k' < k, c.CarriesAt k' n) {s₀ : ParserState}
    {inner : Grammar → Parse ι} {rest : ι → Grammar → Parse α}
    {commit : List Node → Grammar → Parse α} (hi : Itemized inner)
    (hinner : ∀ t, Built c.last t (fun _ => True) inner)
    (hparams : ∀ rounds t, Built c.last t (fun _ => True) fun g => parametersFrom g rounds)
    (hrest : ∀ x t, Built c.last t O (rest x)) (hcommit : ∀ ps t, Built c.last t O (commit ps))
    (ihi : ∀ t, c.Carries k n t (fun _ => True) inner)
    (ihp : ∀ rounds t, c.Carries k n t (fun _ => True) fun g => parametersFrom g rounds)
    (ihr : ∀ x t, c.Carries k n t O (rest x)) (ihc : ∀ ps t, c.Carries k n t O (commit ps)) :
    c.Carries k n s₀ O fun g =>
      chooseArrow g (inner g) (fun x => rest x g) fun params => commit params g := by
  intro s t b s' _ hp hrun
  have hg := parseLevel_proceeds k
  rcases hrun.of_chooseArrow (fun rounds v => (hparams rounds v).proceeds hg v (.rfl v))
      (fun v => (hinner v).proceeds hg v (.rfl v)) (fun x v => (hrest x v).proceeds hg v (.rfl v))
      (fun ps v => (hcommit ps v).proceeds hg v (.rfl v)) with
    ⟨params, u, -, hread, hafter⟩ | ⟨s₁, x, u, hs₁, -, hview, -, hopen, hlist, hclose, hafter⟩
  · -- The first parse has committed: the second reads the same parameters.
    obtain ⟨v, hv, hpv⟩ := (ihp s.advance.rounds s.advance (.rfl _) hp.advance hread.reads).carried
      (by rw [hread.closes]; simp) (by rw [hread.closes]; simp)
    exact (ihc params u.advance.advance (.rfl _) hpv.advance.advance hafter).of_eq
      (chooseArrow_of_some (arrowParameters?_carried hp hread hv hpv)) hv.2.symm
  · -- The first parse has read a list: the second falls back, or an arrow stops the first.
    have hp₁ : c.Pair s₁ t := hp.after_vain hs₁
    have hreads := hi (parseLevel k) hg _ x u hlist hclose
    by_cases harrow : u.advance.kind = .punct .arrow
    · have hstuck : ParserState.IsStuck (ParserState.advance { u with noIn := s.noIn }) := .inr harrow
      have hstream := (hrest x _).sticks (.rfl _) hstuck hafter
      refine .inr (.inl ?_)
      rw [ParserState.kind, ParserState.current, hstream]
      exact harrow
    · obtain ⟨t₁, ht₁, hfaults'⟩ := arrowParameters?_beside hk hp₁ hreads harrow
      have hp' : c.Pair s₁ t₁ := hp₁.of_vain hk hreads harrow ht₁
      obtain ⟨v, hv, hpv⟩ := (ihi _ (.rfl _) (hp'.advance.withNoIn false) hlist).carried
        (by rw [hclose]; simp) (by rw [hclose]; simp)
      have hpv' : c.Pair (ParserState.advance { u with noIn := s.noIn })
          (ParserState.advance { v with noIn := t₁.noIn }) := by
        rw [hp'.view.2, hview.2]
        exact (hpv.withNoIn _).advance
      have hopen' : t₁.kind = .punct .openParen := hp'.kind.trans (hview.kind.trans hopen)
      exact (ihr x _ (.rfl _) hpv' hafter).of_eq
        (chooseArrow_of_none ht₁ hopen' hv.1 (hpv.kind.trans hclose)) (hv.2.trans hfaults').symm

/-- **Whatever is built carries over** from one parse to another with at least as many levels. -/
theorem carriesAt : ∀ k n, k ≤ n → c.CarriesAt k n := by
  intro k
  induction k using Nat.strongRecOn with
  | _ k below =>
    intro n hkn α s₀ O x hx
    have hcall : ∀ q s₀, c.Carries k n s₀ (Node.Open c.last) fun g => g q := by
      intro q s₀ s t a s' hs hp hrun
      cases k with
      | zero => cases hrun.1
      | succ k =>
        obtain ⟨n, rfl⟩ : ∃ n', n = n' + 1 := ⟨n - 1, by omega⟩
        exact below k (Nat.lt_succ_self k) n (by omega) (begins_produce q s₀).built hs hp hrun
    induction hx with
    | pure a => exact Carries.pure (k := k) (n := n) a
    | bind hx hf hO ihx ihf => exact Carries.bind hx hf hO ihx ihf
    | same hxy _ ih => exact Carries.same hxy ih
    | weaken hO _ ih => exact Carries.weaken hO ih
    | next _ _ ih => exact Carries.next ih
    | nextArrow _ _ => exact Carries.nextArrow (k := k) (n := n)
    | fail e _ => exact Carries.fail (k := k) (n := n) e
    | call q => exact hcall q _
    | nested _ ih => exact Carries.nested ih
    | withNoIn noIn _ ih => exact Carries.withNoIn noIn ih
    | closeBrace => exact Carries.closeBrace (k := k) (n := n)
    | listedStatement => exact Carries.listedStatement (hcall .statement _)
    | listedElement hx ih => exact Carries.listedElement (hx _) (ih _)
    | chooseArrow hi hinner hparams hrest hcommit ihi ihp ihr ihc =>
      exact Carries.chooseArrow (fun k' hk' => below k' hk' n (by omega)) hi hinner hparams hrest hcommit ihi ihp
        ihr ihc

end Comparison

end Typeahead
