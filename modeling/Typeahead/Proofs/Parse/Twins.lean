/-
# One parse that remembers and one that forgets

Two strict parses of a text differ only in whether they remember where parameters were tried in
vain. A clean run of one is carried over to the other and back, and leaves them as they were,
but where it stops before an arrow: the parameters there may have failed for their depth alone,
and their place is remembered though an arrow follows. Nothing is read at an arrow, so what is
remembered of that place is never asked for, and the two have the same result.

Key definitions: `Comparison.strict`, `Twins`, `HaltsAlike`.
Key theorems: `Twins.carried`, `HaltsAlike.chooseArrow`, `parseLevel_haltsAlike`, `clean_memory`.
-/
import Typeahead.Proofs.Parse.Script

namespace Typeahead

open Text Parse Grammar

variable {α β ι : Type} {text : List Char} {first : Bool} {k : Nat} {s s' t t' u s₀ : ParserState}
  {O : α → Prop} {O' : β → Prop} {a : α}

/-- Two strict parses of a text, of which one remembers: the first, or else the second. -/
def Comparison.strict (text : List Char) (first : Bool) : Comparison where
  tokens := (TokenStream.ofText text).tokens
  start := 0
  last := unitLength text
  mode := false
  mode' := false
  memory := first
  memory' := !first
  ends _ := stop_of_end
  sound h := ⟨by simpa using h, rfl, fun _ => not_fallsBack_of_commits⟩

/-- The states of the two parses, at the same place and depth: what the one remembers, the other
finds. -/
structure Twins (text : List Char) (first : Bool) (s t : ParserState) : Prop where
  there : (Comparison.strict text first).Pair s t
  back : (Comparison.strict text !first).Pair t s

/-- Where a clean run of the first parse stops at an arrow, the second stops with the same result. -/
def HaltsAlike (text : List Char) (first : Bool) (k : Nat) (s₀ : ParserState) (x : Grammar → Parse α) :
    Prop :=
  ∀ {s t a s'}, s₀.SameView s → Twins text first s t → CleanRun (x (parseLevel k)) s a s' →
    s'.kind = .punct .arrow → ∃ t', CleanRun (x (parseLevel k)) t a t' ∧ s'.Alike t'

namespace Twins

theorem alike (h : Twins text first s t) : s.Alike t :=
  ⟨h.there.view, Nat.le_antisymm h.there.depth h.back.depth,
    h.there.mode'.trans h.there.mode.symm⟩

theorem flip (h : Twins text first s t) : Twins text (!first) t s :=
  ⟨h.back, (Bool.not_not first).symm ▸ h.there⟩

theorem advance (h : Twins text first s t) : Twins text first s.advance t.advance :=
  ⟨h.there.advance, h.back.advance⟩

theorem withNoIn (h : Twins text first s t) (noIn : Bool) :
    Twins text first { s with noIn } { t with noIn } :=
  ⟨h.there.withNoIn noIn, h.back.withNoIn noIn⟩

theorem withDepth (h : Twins text first s t) (depth : Nat) :
    Twins text first { s with depth } { t with depth } :=
  ⟨h.there.withDepth (Nat.le_refl _), h.back.withDepth (Nat.le_refl _)⟩

/-- **A clean run that does not stop at an arrow is carried over**, and the states are twins again. -/
theorem carried (h : Twins text first s t) {x : Grammar → Parse α} (hx : Built (unitLength text) s₀ O x)
    (hs : s₀.SameView s) (hrun : CleanRun (x (parseLevel k)) s a s') (harrow : s'.kind ≠ .punct .arrow) :
    ∃ t', CleanRun (x (parseLevel k)) t a t' ∧ Twins text first s' t' := by
  have hcarry : ∀ {first s t s'}, s₀.SameView s → (Comparison.strict text first).Pair s t →
      CleanRun (x (parseLevel k)) s a s' → s'.kind ≠ .punct .arrow →
      ∃ t', CleanRun (x (parseLevel k)) t a t' ∧ (Comparison.strict text first).Pair s' t' := by
    intro first s t s' hs hp hrun harrow
    rcases Comparison.carriesAt (c := .strict text first) k k (Nat.le_refl _) hx hs hp hrun with
      hcarried | harrow' | ⟨hmode, -⟩
    · exact hcarried
    · exact absurd harrow' harrow
    · exact absurd hmode Bool.false_ne_true
  obtain ⟨t', ht', hp⟩ := hcarry hs h.there hrun harrow
  obtain ⟨s'', hs'', hp'⟩ := hcarry (hs.trans h.there.view) h.back ht' (by rwa [hp.kind])
  cases hs''.1.symm.trans hrun.1
  exact ⟨t', ht', hp, hp'⟩

/-- Where the first parse tries parameters in vain, so does the second. -/
theorem vain (h : Twins text first s t)
    (hs : arrowParameters? (parseLevel k) s = .ok none s') :
    ∃ t', arrowParameters? (parseLevel k) t = .ok none t' := by
  cases ht : arrowParameters? (parseLevel k) t with
  | error e t' =>
    rw [arrowParameters?] at ht
    split at ht
    · cases ht
    · split at ht
      · split at ht <;> cases ht
      · cases ht
  | ok params t' =>
    cases params with
    | none => exact ⟨t', rfl⟩
    | some params =>
      -- Then the first would read them too: at this depth both can.
      obtain ⟨-, hlist, harrow⟩ := arrowParameters?_some.1 ht
      obtain ⟨hopen, u, hu, hclose, rfl⟩ := parameterList_ok.1 hlist
      have hclean : u.faults = t.advance.faults :=
        ((built_parametersFrom t.advance.rounds t.advance : Built 0 _ _ _).proceeds (parseLevel_proceeds k) _
          (.rfl _)).ok hu |>.strict h.there.mode'
      obtain ⟨v, hv, huv⟩ := h.flip.advance.carried (built_parametersFrom _ _) (.rfl _) ⟨hu, hclean⟩
        (by rw [hclose]; simp)
      cases (Comparison.arrowParameters?_carried h.back ⟨hopen, ⟨hu, hclean⟩, hclose, harrow⟩ hv
        huv.there).symm.trans hs

/-- Where both have read a list that no arrow follows they are twins still: the place that both
remember now is one where the other finds a list. -/
theorem of_vain {v : ParserState} (h : Twins text first s t)
    (hs : arrowParameters? (parseLevel k) s = .ok none s')
    (ht : arrowParameters? (parseLevel k) t = .ok none t')
    (hreads : ReadsItems (parseLevel k) { s'.advance with noIn := false } u)
    (hreads' : ReadsItems (parseLevel k) { t'.advance with noIn := false } v)
    (harrow : u.advance.kind ≠ .punct .arrow) (harrow' : v.advance.kind ≠ .punct .arrow) :
    Twins text first s' t' := by
  have hone : ∀ {first s t s' t' u}, (Comparison.strict text first).Pair s t →
      arrowParameters? (parseLevel k) s = .ok none s' → arrowParameters? (parseLevel k) t = .ok none t' →
      ReadsItems (parseLevel k) { s'.advance with noIn := false } u → u.advance.kind ≠ .punct .arrow →
      (Comparison.strict text first).Pair s' t' := by
    intro first s t s' t' u hp hs ht hreads harrow
    exact (hp.after_vain hs).of_vain (fun k' hk' => Comparison.carriesAt k' k (Nat.le_of_lt hk')) hreads harrow
      ht
  exact ⟨hone h.there hs ht hreads harrow, hone h.back ht hs hreads' harrow'⟩

/-- The states inside the parentheses of a list that an arrow follows: only places before them are
remembered that the other does not find. -/
theorem inside (h : Twins text first s t) (hs : arrowParameters? (parseLevel k) s = .ok none s')
    (ht : arrowParameters? (parseLevel k) t = .ok none t') (hopen : s'.kind = .punct .openParen)
    (hreads : ReadsItems (parseLevel k) { s'.advance with noIn := false } u) :
    ({ Comparison.strict text first with start := s'.advance.position }).Pair s'.advance t'.advance := by
  have hp := h.there.after_vain hs
  have hfollows := follows_of_vain ht
  have hlt : t.position < s'.advance.position := by
    have hposition : t.position = s'.position := congrArg TokenStream.position hp.view.1
    rw [hposition]
    exact s'.position_lt_advance (closed_ofText hp.tokens) (by rw [hopen]; simp)
  exact {
    tokens := s'.stream.tokens_advance.trans hp.tokens
    started := Nat.le_refl _
    mode := hp.mode
    memory := hp.memory
    mode' := hfollows.recovering.trans hp.mode'
    memory' := hfollows.remembers.trans hp.memory'
    view := ⟨congrArg TokenStream.advance ((arrowParameters?_none ht).trans hp.view.1),
      hfollows.noIn.trans hp.view.2⟩
    depth := Nat.le_trans (Nat.le_of_eq hfollows.depth) hp.depth
    remembers := fun hmemory p hmem hstart =>
      (Comparison.remembers_of_vain (fun k' hk' => Comparison.carriesAt k' k (Nat.le_of_lt hk')) hp hreads ht
        hmemory p hmem (Nat.zero_le p)).resolve_left (Nat.ne_of_gt (Nat.lt_of_lt_of_le hlt hstart)) }

/-- Both read the list, whatever they remember of the place where it opens. -/
theorem list (h : Twins text first s t) {inner : Grammar → Parse ι} {x : ι} (hi : Itemized inner)
    (hinner : ∀ t, Built (unitLength text) t (fun _ => True) inner)
    (hs : arrowParameters? (parseLevel k) s = .ok none s') (ht : arrowParameters? (parseLevel k) t = .ok none t')
    (hopen : s.kind = .punct .openParen)
    (hlist : CleanRun (inner (parseLevel k)) { s'.advance with noIn := false } x u)
    (hclose : u.kind = .punct .closeParen) :
    ∃ v, CleanRun (inner (parseLevel k)) { t'.advance with noIn := false } x v ∧ s'.Alike t' ∧ u.Alike v := by
  have hg := parseLevel_proceeds k
  have hopen' : s'.kind = .punct .openParen := by
    rw [ParserState.kind, ParserState.current, arrowParameters?_none hs]
    exact hopen
  have hpair := (h.inside hs ht hopen' (hi (parseLevel k) hg _ x u hlist hclose)).withNoIn false
  obtain ⟨v, hv, hpv⟩ := (Comparison.carriesAt k k (Nat.le_refl _) (hinner _) (.rfl _) hpair hlist).carried
    (by rw [hclose]; simp) (by rw [hclose]; simp)
  have halike : s'.Alike t' := h.alike.of_follows (follows_of_vain hs) (follows_of_vain ht)
    ((arrowParameters?_none ht).trans (h.there.view.1.trans (arrowParameters?_none hs).symm))
  exact ⟨v, hv, halike, (halike.advance.withNoIn false).of_follows (((hinner _).proceeds hg _ (.rfl _)).ok hlist.1)
    (((hinner _).proceeds hg _ (.rfl _)).ok hv.1) hpv.view.1⟩

end Twins

namespace HaltsAlike

theorem bind {x : Grammar → Parse α} {f : α → Grammar → Parse β} (hx : Built (unitLength text) s₀ O x)
    (hf : ∀ a u, Built (unitLength text) u O' (f a)) (ihx : HaltsAlike text first k s₀ x)
    (ihf : ∀ a u, HaltsAlike text first k u (f a)) :
    HaltsAlike text first k s₀ fun g => x g >>= fun a => f a g := by
  intro s t b s' hs h hrun harrow
  have hg := parseLevel_proceeds k
  obtain ⟨a, u, hu, hrun⟩ := hrun.of_bind (hx.proceeds hg s hs) fun a u => (hf a u).proceeds hg u (.rfl u)
  by_cases harrow' : u.kind = .punct .arrow
  · obtain ⟨v, hv, huv⟩ := ihx hs h hu harrow'
    have hidle := fun {w} => (hf a u).idles (v := w) (.rfl u) (.inr harrow') hrun
    cases (hidle (.rfl u)).symm.trans hrun.1
    exact ⟨v, ⟨(bind_of_ok hv.1).trans (hidle huv), hv.2⟩, huv⟩
  · obtain ⟨v, hv, huv⟩ := h.carried hx hs hu harrow'
    obtain ⟨t', ht', halike⟩ := ihf a u (.rfl u) huv hrun harrow
    exact ⟨t', ⟨(bind_of_ok hv.1).trans ht'.1, ht'.2.trans hv.2⟩, halike⟩

theorem same {x y : Grammar → Parse α} (hxy : ∀ g t, s₀.SameView t → x g t = y g t)
    (ih : HaltsAlike text first k s₀ y) : HaltsAlike text first k s₀ x := by
  intro s t a s' hs h hrun harrow
  obtain ⟨t', ht', halike⟩ := ih hs h (hrun.of_eq (hxy _ s hs) rfl) harrow
  exact ⟨t', ht'.of_eq (hxy _ t (hs.trans h.there.view)).symm rfl, halike⟩

theorem next {f : Token → Grammar → Parse α} (ih : HaltsAlike text first k s₀.advance (f s₀.current)) :
    HaltsAlike text first k s₀ fun g => Parse.next >>= fun a => f a g := by
  intro s t a s' hs h hrun harrow
  have hstep : ∀ u, s₀.SameView u → (Parse.next >>= fun a => f a (parseLevel k)) u =
      f s₀.current (parseLevel k) u.advance := fun u hu => by
    rw [← hu.current]
    rfl
  obtain ⟨t', ht', halike⟩ := ih hs.advance h.advance (hrun.of_eq (hstep s hs) rfl) harrow
  exact ⟨t', ht'.of_eq (hstep t (hs.trans h.there.view)).symm rfl, halike⟩

theorem nextArrow : HaltsAlike text first k s₀ fun _ => Parse.next >>= fun _ => Parse.next := by
  intro s t a s' _ h hrun _
  cases hrun.1
  refine ⟨t.advance.advance, ⟨?_, rfl⟩, h.alike.advance.advance⟩
  rw [← h.alike.advance.view.current]
  rfl

theorem nested {x : Grammar → Parse α} (ih : HaltsAlike text first k s₀ x) :
    HaltsAlike text first k s₀ fun g => nested (x g) := by
  intro s t a s' hs h hrun harrow
  obtain ⟨hd, u, hu, rfl⟩ := hrun.of_nested
  have hdepth := h.alike.depth
  obtain ⟨v, hv, huv⟩ := ih (s := { s with depth := s.depth + 1 }) (t := { t with depth := t.depth + 1 }) hs
    (hdepth ▸ h.withDepth (s.depth + 1)) hu harrow
  exact ⟨_, ⟨nested_of_ok (by omega) hv.1, hv.2⟩, huv.view, congrArg (· - 1) huv.depth, huv.recovering⟩

theorem withNoIn {x : Grammar → Parse α} (noIn : Bool) (ih : HaltsAlike text first k { s₀ with noIn } x) :
    HaltsAlike text first k s₀ fun g => withNoIn noIn (x g) := by
  intro s t a s' hs h hrun harrow
  obtain ⟨u, hu, rfl⟩ := hrun.of_withNoIn
  obtain ⟨v, hv, huv⟩ := ih (s := { s with noIn }) (t := { t with noIn }) ⟨hs.1, rfl⟩ (h.withNoIn noIn) hu
    harrow
  exact ⟨_, ⟨withNoIn_of_ok hv.1, hv.2⟩, ⟨huv.view.1, h.alike.view.2⟩, huv.depth, huv.recovering⟩

theorem closeBrace : HaltsAlike text first k s₀ fun _ => closeBrace := by
  intro s t stop s' _ h hrun _
  rcases closeBrace_ok.1 hrun.1 with ⟨hend, rfl, rfl⟩ | ⟨hend, hbrace, rfl, rfl⟩
  · exact ⟨t, ⟨closeBrace_ok.2 (.inl ⟨h.alike.endsBlock.trans hend, by rw [h.alike.view.current], rfl⟩), rfl⟩,
      h.alike⟩
  · exact ⟨t.advance, ⟨closeBrace_ok.2 (.inr ⟨h.alike.endsBlock.trans hend, h.there.kind.trans hbrace,
      by rw [h.alike.view.current], rfl⟩), rfl⟩, h.alike.advance⟩

theorem listedStatement (ih : HaltsAlike text first k s₀ fun g => g .statement) :
    HaltsAlike text first k s₀ listedStatement := by
  intro s t o s' hs h hrun harrow
  obtain ⟨node, rfl, hnode⟩ := hrun.of_listedStatement (parseLevel_proceeds k)
  obtain ⟨t', ht', halike⟩ := ih hs h hnode harrow
  exact ⟨t', .listedStatement ht', halike⟩

theorem listedElement (hx : Built (unitLength text) s₀ (fun _ => True) classElement)
    (ih : HaltsAlike text first k s₀ classElement) : HaltsAlike text first k s₀ listedElement := by
  intro s t o s' hs h hrun harrow
  have hmark := h.alike.view.atMark .semicolon
  rcases hrun.of_listedElement (hx.proceeds (parseLevel_proceeds k) s hs) with
    ⟨hsemi, rfl, rfl⟩ | ⟨hsemi, hrun⟩
  · exact ⟨t.advance, ⟨listedElement_of_semicolon (hmark.trans hsemi), rfl⟩, h.alike.advance⟩
  · obtain ⟨t', ht', halike⟩ := ih hs h hrun harrow
    exact ⟨t', .listedElement (hmark.trans hsemi) ht', halike⟩

theorem chooseArrow {inner : Grammar → Parse ι} {rest : ι → Grammar → Parse α}
    {commit : List Node → Grammar → Parse α} (hi : Itemized inner)
    (hinner : ∀ t, Built (unitLength text) t (fun _ => True) inner)
    (hparams : ∀ rounds t, Built (unitLength text) t (fun _ => True) fun g => parametersFrom g rounds)
    (hrest : ∀ x t, Built (unitLength text) t O (rest x))
    (hcommit : ∀ ps t, Built (unitLength text) t O (commit ps))
    (ihr : ∀ x t, HaltsAlike text first k t (rest x)) (ihc : ∀ ps t, HaltsAlike text first k t (commit ps)) :
    HaltsAlike text first k s₀ fun g =>
      chooseArrow g (inner g) (fun x => rest x g) fun params => commit params g := by
  intro s t b s' _ h hrun harrow
  have hg := parseLevel_proceeds k
  rcases hrun.of_chooseArrow (fun rounds v => (hparams rounds v).proceeds hg v (.rfl v))
      (fun v => (hinner v).proceeds hg v (.rfl v)) (fun x v => (hrest x v).proceeds hg v (.rfl v))
      (fun ps v => (hcommit ps v).proceeds hg v (.rfl v)) with
    ⟨params, u, -, hread, hafter⟩ | ⟨s₁, x, u, hs₁, -, hview, -, hopen, hlist, hclose, hafter⟩
  · -- Both read the parameters.
    obtain ⟨v, hv, huv⟩ := h.advance.carried (hparams _ _) (.rfl _) hread.reads (by rw [hread.closes]; simp)
    obtain ⟨t', ht', halike⟩ := ihc params _ (.rfl _) huv.advance.advance hafter harrow
    have hparams' := Comparison.arrowParameters?_carried h.there hread hv huv.there
    exact ⟨t', ⟨(chooseArrow_of_some hparams').trans ht'.1, ht'.2.trans hv.2⟩, halike⟩
  · obtain ⟨t₁, ht₁⟩ := h.vain hs₁
    obtain ⟨v, hv, halike₁, halike⟩ := h.list hi hinner hs₁ ht₁ hopen hlist hclose
    have hbehind : ParserState.Alike (ParserState.advance { u with noIn := s.noIn })
        (ParserState.advance { v with noIn := t₁.noIn }) := by
      rw [halike₁.view.2, hview.2]
      exact (halike.withNoIn s.noIn).advance
    have hopen' : t₁.kind = .punct .openParen := halike₁.view.kind.trans (hview.kind.trans hopen)
    have hclose' : v.kind = .punct .closeParen := halike.view.kind.trans hclose
    have hfaults' : v.faults = t.faults := hv.2.trans ((follows_of_vain ht₁).strict h.there.mode')
    by_cases harrow' : u.advance.kind = .punct .arrow
    · -- Nothing is read behind the list.
      have hstuck : ParserState.IsStuck (ParserState.advance { u with noIn := s.noIn }) := .inr harrow'
      have hidle := fun {w} => (hrest x _).idles (v := w) (.rfl _) hstuck hafter
      cases (hidle (.rfl _)).symm.trans hafter.1
      exact ⟨_, ⟨(chooseArrow_of_none ht₁ hopen' hv.1 hclose').trans (hidle hbehind), hfaults'⟩, hbehind⟩
    · have htwins : Twins text first s₁ t₁ := h.of_vain hs₁ ht₁ (hi (parseLevel k) hg _ x u hlist hclose)
        (hi (parseLevel k) hg _ x v hv hclose') harrow' (by rwa [halike.advance.view.kind])
      obtain ⟨v', hv', huv⟩ := (htwins.advance.withNoIn false).carried (hinner _) (.rfl _) hlist
        (by rw [hclose]; simp)
      cases hv'.1.symm.trans hv.1
      have htwins' : Twins text first (ParserState.advance { u with noIn := s.noIn })
          (ParserState.advance { v with noIn := t₁.noIn }) := by
        rw [halike₁.view.2, hview.2]
        exact (huv.withNoIn s.noIn).advance
      obtain ⟨t', ht', halike'⟩ := ihr x _ (.rfl _) htwins' hafter harrow
      exact ⟨t', ⟨(chooseArrow_of_none ht₁ hopen' hv.1 hclose').trans ht'.1, ht'.2.trans hfaults'⟩, halike'⟩

end HaltsAlike

theorem Built.haltsAlike (hcall : ∀ q s₀, HaltsAlike text first k s₀ fun g => g q) {x : Grammar → Parse α}
    (hx : Built (unitLength text) s₀ O x) : HaltsAlike text first k s₀ x := by
  induction hx with
  | pure a =>
    intro s t b s' _ h hrun _
    obtain ⟨rfl, rfl⟩ := hrun.of_pure
    exact ⟨t, ⟨rfl, rfl⟩, h.alike⟩
  | bind hx hf _ ihx ihf => exact HaltsAlike.bind hx hf ihx ihf
  | same hxy _ ih => exact HaltsAlike.same hxy ih
  | weaken _ _ ih => exact ih
  | next _ _ ih => exact HaltsAlike.next ih
  | nextArrow => exact HaltsAlike.nextArrow (k := k)
  | fail => exact fun _ _ hrun => by cases hrun.1
  | call q => exact hcall q _
  | nested _ ih => exact HaltsAlike.nested ih
  | withNoIn noIn _ ih => exact HaltsAlike.withNoIn noIn ih
  | closeBrace => exact HaltsAlike.closeBrace (k := k)
  | listedStatement => exact HaltsAlike.listedStatement (hcall .statement _)
  | listedElement hx ih => exact HaltsAlike.listedElement (hx _) (ih _)
  | chooseArrow hi hinner hparams hrest hcommit _ _ ihr ihc =>
    exact HaltsAlike.chooseArrow hi hinner hparams hrest hcommit ihr ihc

/-- **A production whose clean run stops at an arrow stops there in the other parse too.** -/
theorem parseLevel_haltsAlike : ∀ k q s₀, HaltsAlike text first k s₀ fun g => g q
  | 0, _, _ => fun _ _ hrun => by cases hrun.1
  | k + 1, q, s₀ => fun hs h hrun =>
    (begins_produce q s₀).built.haltsAlike (parseLevel_haltsAlike k) hs h hrun

/-- **A clean run of a production over a text is one whether the parse remembers or not.** -/
theorem clean_memory {q : Production} {n : Node} {memory : Bool}
    (h : CleanRun (parseLevel k q) (.startOf text false memory) n s) :
    ∃ t, CleanRun (parseLevel k q) (.startOf text false !memory) n t := by
  have hback : (Comparison.strict text !memory).Pair (.startOf text false !memory)
      (.startOf text false !!memory) := .ofText rfl rfl
  rw [Bool.not_not] at hback
  have htwins : Twins text memory (.startOf text false memory) (.startOf text false !memory) :=
    ⟨.ofText rfl rfl, hback⟩
  by_cases harrow : s.kind = .punct .arrow
  · obtain ⟨t, ht, -⟩ := parseLevel_haltsAlike k q _ (.rfl _) htwins h harrow
    exact ⟨t, ht⟩
  · obtain ⟨t, ht, -⟩ := htwins.carried (.call q) (.rfl _) h harrow
    exact ⟨t, ht⟩

end Typeahead
