/-
# Lists in parentheses

What a pair of parentheses holds where it is no parameter list, the expressions of a sequence
or the arguments of a call, is a list of items with commas between them.

Key definition: `argumentItems`.
Key theorems: `itemized_innerSequence`, `itemized_argumentItems`.
-/
import Typeahead.Proofs.Parse.Literals

namespace Typeahead

open Parse Grammar

variable {g : Grammar}

/-- What stands between the parentheses of a call. -/
def Grammar.argumentItems (g : Grammar) : Parse (List Node) :=
  collectUntil (·.atMark .closeParen) do
    let item ← spreadOrAssignment g
    separator .closeParen
    return some item

/-- The items after the first of a sequence. -/
theorem readsItems_of_commas (hg : g.Proceeds) : ∀ rounds {s u t : ParserState} {l : List Node},
    ReadsItem g s u → CleanRun (collect (!·.atMark .comma) (do
      let _ ← next
      return some (← g .assignment)) rounds) u l t → t.kind = .punct .closeParen → ReadsItems g s t := by
  intro rounds
  induction rounds with
  | zero =>
    rintro s u t l hs ⟨hrun, _⟩ ht
    cases hrun
    exact .last hs ht
  | succ rounds ih =>
    intro s u t l hs hrun ht
    rcases hrun.of_collect fun v => Proceeds.next.bind fun _ _ _ => (hg _ _).bind fun _ _ _ => .pure _
      with ⟨rfl, _⟩ | ⟨n, o, v, rest, hn, hu, ho, hrest, _⟩
    · exact .last hs ht
    · cases hn
      obtain ⟨_, w, hw, ho⟩ := ho.of_bind .next fun _ _ => (hg _ _).bind fun _ _ _ => .pure _
      cases hw.1
      obtain ⟨item, x, hx, hv⟩ := ho.of_bind (hg _ _) fun _ _ => .pure _
      cases hv.of_pure.2
      have hcomma : u.kind = .punct .comma := by simpa [ParserState.atMark] using hu
      exact .more hs hcomma (ih (.plain hx) hrest ht)

theorem itemized_innerSequence : Itemized innerSequence := by
  intro g hg s x t hrun ht
  have hstep : ∀ v, Proceeds (do
      let _ ← next
      return some (← g .assignment)) v := fun v =>
    Proceeds.next.bind fun _ _ _ => (hg _ _).bind fun _ _ _ => .pure _
  have hrun : CleanRun (g .assignment >>= fun first => (do
      if !(← get).atMark .comma then return first
      let others ← collectUntil (!·.atMark .comma) do
        let _ ← next
        return some (← g .assignment)
      finish s.offset (.sequence (first :: others)))) s x t := hrun
  obtain ⟨first, u, hu, hrun⟩ := hrun.of_bind (hg _ _) fun _ v => .look <| by
    split
    · exact .pure _
    · exact (Proceeds.look (.collect hstep _ _)).bind fun _ _ _ => .look (.pure _)
  by_cases hc : u.atMark .comma = true
  · have hrun : CleanRun (collectUntil (!·.atMark .comma) (do
        let _ ← next
        return some (← g .assignment)) >>= fun others => finish s.offset (.sequence (first :: others)))
        u x t := by
      simpa only [CleanRun, get_run, hc, Bool.not_true, Bool.false_eq_true, ↓reduceIte] using hrun
    obtain ⟨others, v, hv, hrun⟩ := hrun.of_bind (.look (.collect hstep _ _)) fun _ _ => .look (.pure _)
    have hvt : t = v := CleanRun.of_pure hrun |>.2
    subst hvt
    exact readsItems_of_commas hg u.rounds (.plain hu) hv ht
  · have hrun : CleanRun (pure first) u x t := by
      simpa only [CleanRun, get_run, hc, Bool.not_false, ↓reduceIte] using hrun
    cases hrun.of_pure.2
    exact .last (.plain hu) ht

/-! ### Arguments -/

theorem readsItem_of_spreadOrAssignment (hg : g.Proceeds) {s t : ParserState} {n : Node}
    (h : CleanRun (spreadOrAssignment g) s n t) : ReadsItem g s t := by
  cases hs : s.atMark .ellipsis with
  | true =>
    have h : CleanRun (g .assignment >>= fun argument => finish s.offset (.spread argument))
        s.advance n t := h.of_eq (bind_of_ok (nextIf_of_true hs)) rfl
    obtain ⟨argument, u, hu, h⟩ := h.of_bind (hg _ _) fun _ _ => .look (.pure _)
    cases (CleanRun.of_pure h).2
    exact .spread (beq_iff_eq.1 hs) hu
  | false => exact .plain (h.of_eq (bind_of_ok (nextIf_of_false hs)) rfl)

/-- After an item the list goes on behind a comma, or is at its end. -/
theorem CleanRun.of_separator {close : Punctuator} {s t : ParserState} {r : Unit}
    (h : CleanRun (separator close) s r t) :
    (s.kind = .punct close ∧ t = s) ∨ (s.kind = .punct .comma ∧ t = s.advance) := by
  obtain ⟨h, _⟩ := h
  rw [separator, get_run] at h
  cases hs : s.atMark close with
  | true =>
    rw [hs] at h
    cases h
    exact .inl ⟨beq_iff_eq.1 hs, rfl⟩
  | false =>
    rw [hs] at h
    obtain ⟨_, u, hu, h⟩ := bind_ok.1 h
    cases h
    obtain ⟨hk, -, rfl⟩ := expect_ok hu
    exact .inr ⟨hk, rfl⟩

theorem proceeds_spreadOrAssignment (hg : g.Proceeds) (s : ParserState) :
    Proceeds (spreadOrAssignment g) s :=
  (built_spreadOrAssignment : Built 0 s _ _).proceeds hg s (.rfl s)

theorem proceeds_separator (close : Punctuator) (s : ParserState) : Proceeds (separator close) s := by
  refine .look ?_
  split
  · exact (Proceeds.expectKind _).bind fun _ _ _ => .pure _
  · exact .pure _

theorem proceeds_argument (hg : g.Proceeds) (s : ParserState) : Proceeds (do
    let item ← spreadOrAssignment g
    separator .closeParen
    return some item) s :=
  (proceeds_spreadOrAssignment hg s).bind fun _ _ _ => (proceeds_separator _ _).bind fun _ _ _ => .pure _

theorem itemized_argumentItems : Itemized argumentItems := by
  intro g hg s x t hrun ht
  have hloop : ∀ rounds {s t : ParserState} {l : List Node}, CleanRun (collect (·.atMark .closeParen) (do
      let item ← spreadOrAssignment g
      separator .closeParen
      return some item) rounds) s l t → t.kind = .punct .closeParen → ReadsItems g s t := by
    intro rounds
    induction rounds with
    | zero =>
      rintro s t l ⟨hrun, _⟩ ht
      cases hrun
      exact .none ht
    | succ rounds ih =>
      intro s t l hrun ht
      rcases hrun.of_collect (proceeds_argument hg) with ⟨rfl, _⟩ | ⟨n, o, v, rest, hn, hu, ho, hrest, _⟩
      · exact .none ht
      · cases hn
        obtain ⟨item, w, hw, ho⟩ := ho.of_bind (proceeds_spreadOrAssignment hg s) fun _ _ =>
          (proceeds_separator _ _).bind fun _ _ _ => .pure _
        obtain ⟨_, y, hy, hv⟩ := ho.of_bind (proceeds_separator _ w) fun _ _ => .pure _
        cases hv.of_pure.2
        have hitem := readsItem_of_spreadOrAssignment hg hw
        rcases hy.of_separator with ⟨hclose, rfl⟩ | ⟨hcomma, rfl⟩
        · rcases hrest.of_collect (proceeds_argument hg) with ⟨rfl, _⟩ | ⟨_, _, _, _, _, hd, _⟩
          · exact .last hitem ht
          · rw [ParserState.atMark, hclose, beq_self_eq_true] at hd
            cases hd
        · exact .more hitem hcomma (ih hrest ht)
  exact hloop _ hrun ht

end Typeahead
