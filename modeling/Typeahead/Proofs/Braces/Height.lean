/-
# How many braces are open

Before each token a number of braces is open, the height there: an opening brace raises it and a
closing one lowers it. A statement that is skipped is skipped to where the height is that of its
start again, as the braces it had opened are counted. A class element is skipped from where it
failed, and the braces that it had opened until then are not counted.

Key definitions: `height`, `BalancedBraces`, `ParserState.StaysAbove`.
Key theorems: `skipRest_restores`, `skipStatement_restores`, `skipElement_staysAbove`.
-/
import Typeahead.Proofs.Layout.Run

namespace Typeahead

open Parse

/-- How many braces are open before the token at an index. -/
def height (tokens : Array Token) (index : Nat) : Int :=
  (tokens.toList.take index).foldl (fun braces token => braces + braceStep token) 0

/-- The braces of the tokens are balanced: none is closed that was not opened, and none stays open. -/
structure BalancedBraces (tokens : Array Token) : Prop where
  nonneg : ∀ index, 0 ≤ height tokens index
  zero : height tokens tokens.size = 0

variable {tokens : Array Token} {s t u : ParserState}

theorem height_succ {index : Nat} (h : index < tokens.size) :
    height tokens (index + 1) = height tokens index + braceStep tokens[index] := by
  have hget : tokens.toList[index]? = some tokens[index] := by simp [h]
  rw [height, height, List.take_add_one, hget, List.foldl_append]
  rfl

/-- What is counted over some tokens is added to what was counted before. -/
theorem foldl_braceStep_add (l : List Token) (n : Int) : l.foldl (fun braces token => braces + braceStep token) n =
    n + l.foldl (fun braces token => braces + braceStep token) 0 := by
  induction l generalizing n with
  | nil => exact (Int.add_zero n).symm
  | cons token l ih => rw [List.foldl_cons, List.foldl_cons, ih, ih (0 + braceStep token), Int.zero_add, Int.add_assoc]

/-- What is counted over a stretch of tokens is by how much the height changes. -/
theorem foldl_braceStep (tokens : Array Token) {start stop : Nat} (h : start ≤ stop) :
    (tokens.extract start stop).foldl (fun braces token => braces + braceStep token) 0 =
      height tokens stop - height tokens start := by
  obtain ⟨n, rfl⟩ := Nat.exists_eq_add_of_le h
  rw [← Array.foldl_toList, height, height, Array.toList_extract, List.extract_eq_take_drop, List.take_add,
    List.foldl_append, Nat.add_sub_cancel_left, foldl_braceStep_add ((tokens.toList.drop start).take n)
      ((tokens.toList.take start).foldl _ 0)]
  omega

/-! ### States over balanced tokens -/

/-- The state is one of a parse over the tokens. -/
structure ParserState.Over (tokens : Array Token) (s : ParserState) : Prop extends s.Sound where
  same : s.stream.tokens = tokens

namespace ParserState.Over

theorem follows (h : s.Over tokens) (hf : s.Follows t) : t.Over tokens :=
  ⟨h.toSound.follows hf, hf.tokens.trans h.same⟩

theorem inside_tokens (h : s.Over tokens) : s.position < tokens.size := h.same ▸ h.inside

theorem current_eq_tokens (h : s.Over tokens) (hi : s.position < tokens.size) : s.current = tokens[s.position] := by
  have hcurrent := h.current_eq h.inside
  simp only [h.same] at hcurrent
  exact hcurrent

theorem height_advance (h : s.Over tokens) (hk : s.kind ≠ .endOfInput) :
    s.advance.position = s.position + 1 ∧
      height tokens s.advance.position = height tokens s.position + braceStep s.current := by
  have hlt := s.position_lt_advance h.closed hk
  have hsucc : s.advance.position = s.position + 1 := by
    rw [advance, position, TokenStream.advance] at hlt ⊢
    split at hlt
    · rename_i hlast
      rw [if_pos hlast]
      rfl
    · exact absurd hlt (Nat.lt_irrefl _)
  rw [hsucc, height_succ h.inside_tokens, h.current_eq_tokens h.inside_tokens]
  exact ⟨rfl, rfl⟩

theorem offset_lt_stop (h : s.Over tokens) (hk : s.kind ≠ .endOfInput) : s.offset < s.current.stop := by
  rw [ParserState.offset, h.current_eq h.inside]
  exact h.covers _ _ (h.current_eq h.inside ▸ hk)

/-- At the end the place stays. -/
theorem position_advance_of_end (h : s.Over tokens) (hk : s.kind = .endOfInput) : s.advance.position = s.position := by
  have hsize := h.kind_eq_end.1 hk
  rw [ParserState.advance, position, TokenStream.advance, if_neg]
  · rfl
  · rw [TokenStream.lastIndex, ← hsize]
    exact Nat.lt_irrefl _

/-- At the end no brace is open. -/
theorem height_of_end (h : s.Over tokens) (hb : BalancedBraces tokens) (hk : s.kind = .endOfInput) :
    height tokens s.position = 0 := by
  have hsize := h.kind_eq_end.1 hk
  rw [h.same] at hsize
  have hinside := h.inside_tokens
  have hstep : braceStep tokens[s.position] = 0 := by
    rw [← h.current_eq_tokens hinside, braceStep, show s.current.kind = .endOfInput from hk]
    rfl
  have hzero := hb.zero
  rw [← hsize, height_succ hinside, hstep] at hzero
  omega

end ParserState.Over

/-- A token that is no brace. -/
def ParserState.NoBrace (s : ParserState) : Prop := s.kind ≠ .punct .openBrace ∧ s.kind ≠ .punct .closeBrace

theorem braceStep_of_noBrace (h : s.NoBrace) : braceStep s.current = 0 := by
  have hopen : s.current.kind ≠ .punct .openBrace := h.1
  have hclose : s.current.kind ≠ .punct .closeBrace := h.2
  rw [braceStep, if_neg hopen, if_neg hclose]

/-- What is no closing brace raises the height if it is an opening one. -/
theorem braceStep_of_not_close (h : s.kind ≠ .punct .closeBrace) :
    braceStep s.current = if s.atMark .openBrace then 1 else 0 := by
  have hclose : s.current.kind ≠ .punct .closeBrace := h
  rw [braceStep, if_neg hclose]
  by_cases hopen : s.current.kind = .punct .openBrace
  · rw [if_pos hopen, if_pos (ParserState.atMark_iff.2 hopen)]
  · rw [if_neg hopen, if_neg fun hmark => hopen (ParserState.atMark_iff.1 hmark)]

theorem braceStep_of_close (h : s.kind = .punct .closeBrace) : braceStep s.current = -1 := by
  have hclose : s.current.kind = .punct .closeBrace := h
  rw [braceStep, if_neg (by rw [hclose]; simp), if_pos hclose]

/-- From one state to another the height never falls below that of the first. -/
def ParserState.StaysAbove (tokens : Array Token) (s t : ParserState) : Prop :=
  ∀ index, s.position ≤ index → index ≤ t.position → height tokens s.position ≤ height tokens index

namespace ParserState.StaysAbove

theorem rfl (s : ParserState) : s.StaysAbove tokens s := fun _ h h' =>
  Int.le_of_eq (congrArg (height tokens) (Nat.le_antisymm h h'))

theorem trans (h : s.StaysAbove tokens t) (hf : s.Follows t) (h' : t.StaysAbove tokens u) : s.StaysAbove tokens u := by
  intro index hs hu
  rcases Nat.le_total index t.position with ht | ht
  · exact h index hs ht
  · exact Int.le_trans (h t.position hf.position (Nat.le_refl _)) (h' index ht hu)

theorem end_le (h : s.StaysAbove tokens t) (hf : s.Follows t) : height tokens s.position ≤ height tokens t.position :=
  h t.position hf.position (Nat.le_refl _)

/-- A token that closes no brace keeps the height. -/
theorem advance (h : s.Over tokens) (hk : s.kind ≠ .punct .closeBrace) : s.StaysAbove tokens s.advance := by
  by_cases hend : s.kind = .endOfInput
  · intro index hs ht
    exact Int.le_of_eq (congrArg (height tokens) (Nat.le_antisymm hs (h.position_advance_of_end hend ▸ ht)))
  · obtain ⟨hp, hheight⟩ := h.height_advance hend
    intro index hs ht
    rcases Nat.eq_or_lt_of_le hs with rfl | hlt
    · exact Int.le_refl _
    · obtain rfl : index = s.advance.position := by omega
      rw [hheight, braceStep_of_not_close hk]
      split <;> omega

end ParserState.StaysAbove

/-! ### Skipping -/

/-- **What is skipped ends where the height is that at which the count began.** -/
theorem skipRest_restores (hb : BalancedBraces tokens) : ∀ (rounds : Nat) (braces : Int) {s : ParserState}, s.Over tokens →
    0 ≤ braces → braces ≤ height tokens s.position → tokens.size ≤ s.position + rounds →
    height tokens (skipRest rounds braces s).position = height tokens s.position - braces ∧
      ∀ index, s.position ≤ index → index ≤ (skipRest rounds braces s).position →
        height tokens s.position - braces ≤ height tokens index
  | 0, braces, s, h, _, _, hrounds => by
    have := h.inside_tokens
    omega
  | rounds + 1, braces, s, h, hbraces, hle, hrounds => by
    have hstay : braces = 0 → height tokens s.position = height tokens s.position - braces ∧
        ∀ index, s.position ≤ index → index ≤ s.position →
          height tokens s.position - braces ≤ height tokens index := by
      intro hzero
      refine ⟨by omega, fun index hs ht => ?_⟩
      rw [Nat.le_antisymm ht hs]
      omega
    have hgo : ∀ n : Int, s.kind ≠ .endOfInput → n = braces + braceStep s.current → 0 ≤ n →
        height tokens (skipRest rounds n s.advance).position = height tokens s.position - braces ∧
          ∀ index, s.position ≤ index → index ≤ (skipRest rounds n s.advance).position →
            height tokens s.position - braces ≤ height tokens index := by
      intro n hk hn hnonneg
      obtain ⟨hp, hheight⟩ := h.height_advance hk
      obtain ⟨hend, habove⟩ := skipRest_restores hb rounds n (h.follows s.follows_advance)
        hnonneg (by omega) (by omega)
      refine ⟨by omega, fun index hs ht => ?_⟩
      rcases Nat.eq_or_lt_of_le hs with rfl | hlt
      · omega
      · have := habove index (by omega) ht
        omega
    rw [skipRest]
    by_cases hend : s.atEnd = true
    · rw [if_pos hend]
      have := h.height_of_end hb (beq_iff_eq.1 hend)
      exact hstay (by omega)
    · rw [if_neg hend]
      have hk : s.kind ≠ .endOfInput := fun hk => hend (beq_iff_eq.2 hk)
      by_cases hopen : s.atMark .openBrace = true
      · rw [if_pos hopen]
        have hstep : braceStep s.current = 1 := if_pos (ParserState.atMark_iff.1 hopen)
        exact hgo _ hk (by rw [hstep]) (by omega)
      · rw [if_neg hopen]
        have hnotOpen : s.current.kind ≠ .punct .openBrace := fun h => hopen (ParserState.atMark_iff.2 h)
        by_cases hpos : braces > 0
        · rw [if_pos hpos]
          refine hgo _ hk rfl ?_
          rw [braceStep, if_neg hnotOpen]
          split <;> omega
        · rw [if_neg hpos]
          have hzero : braces = 0 := by omega
          by_cases hclose : s.atMark .closeBrace = true
          · rw [if_pos hclose]
            exact hstay hzero
          · rw [if_neg hclose]
            have hplain : braceStep s.current = 0 := braceStep_of_noBrace
              ⟨hnotOpen, fun h => hclose (ParserState.atMark_iff.2 h)⟩
            by_cases hsemi : s.atMark .semicolon = true
            · rw [if_pos hsemi]
              obtain ⟨hp, hheight⟩ := h.height_advance hk
              refine ⟨by omega, fun index hs ht => ?_⟩
              rcases Nat.eq_or_lt_of_le hs with rfl | hlt
              · omega
              · obtain rfl : index = s.advance.position := by omega
                omega
            · rw [if_neg hsemi]
              by_cases hline : s.current.afterLineBreak = true
              · rw [if_pos hline]
                exact hstay hzero
              · rw [if_neg hline]
                exact hgo _ hk (by omega) hbraces

/-- What is skipped with the braces that are open since a state ends at the height of that state. -/
theorem skipRest_restores_from (hb : BalancedBraces tokens) (hs : s.Over tokens) (hf : s.Follows t)
    (habove : s.StaysAbove tokens t) {rounds : Nat} {braces : Int}
    (hbraces : braces = height tokens t.position - height tokens s.position)
    (hrounds : rounds = tokens.size) :
    height tokens (skipRest rounds braces t).position = height tokens s.position ∧
      s.StaysAbove tokens (skipRest rounds braces t) := by
  have hle := habove.end_le hf
  have hnonneg := hb.nonneg s.position
  obtain ⟨hend, hrest⟩ := skipRest_restores hb rounds braces (hs.follows hf) (by omega) (by omega) (by omega)
  refine ⟨by omega, fun index hi hj => ?_⟩
  rcases Nat.le_total index t.position with ht | ht
  · exact habove index hi ht
  · have := hrest index ht hj
    omega

theorem rounds_eq (h : s.Over tokens) : s.rounds = tokens.size := congrArg Array.size h.same

/-- **A statement that is skipped leaves the height as it was at its start.** -/
theorem skipStatement_restores (hb : BalancedBraces tokens) (hs : s.Over tokens) (hf : s.Follows t)
    (habove : s.StaysAbove tokens t) (hk : s.kind ≠ .punct .closeBrace) :
    height tokens (skipStatement s.position t).position = height tokens s.position ∧
      s.StaysAbove tokens (skipStatement s.position t) := by
  have ht := hs.follows hf
  have hopened := foldl_braceStep tokens hf.position
  rw [skipStatement, ht.same, hopened, rounds_eq ht]
  split
  · rename_i hstart
    rw [Bool.and_eq_true, decide_eq_true_iff, Bool.not_eq_true'] at hstart
    have hcurrent : t.current = s.current := by
      rw [ht.current_eq_tokens ht.inside_tokens, hs.current_eq_tokens hs.inside_tokens]
      simp only [hstart.1]
    have hclose : t.kind ≠ .punct .closeBrace := by
      rw [ParserState.kind, hcurrent]
      exact hk
    have hend : t.kind ≠ .endOfInput := fun h => by
      have hatEnd : t.atEnd = true := beq_iff_eq.2 h
      exact Bool.noConfusion (hatEnd.symm.trans hstart.2)
    obtain ⟨-, hheight⟩ := ht.height_advance hend
    rw [braceStep_of_not_close hclose] at hheight
    refine skipRest_restores_from hb hs (hf.trans t.follows_advance) (habove.trans hf (.advance ht hclose)) ?_ rfl
    omega
  · exact skipRest_restores_from hb hs hf habove rfl rfl

/-- A class element that is skipped may leave the height above that at its start. -/
theorem skipElement_staysAbove (hb : BalancedBraces tokens) (hs : s.Over tokens) (hf : s.Follows t)
    (habove : s.StaysAbove tokens t) (hk : s.kind ≠ .punct .closeBrace) :
    s.StaysAbove tokens (skipElement s.position t) := by
  have hskip : ∀ u, s.Follows u → s.StaysAbove tokens u → s.StaysAbove tokens (skipRest t.rounds 0 u) := by
    intro u hfu hu
    have hover := hs.follows hfu
    exact hu.trans hfu (skipRest_restores_from hb hover (.rfl u) (.rfl u) (by omega) (rounds_eq (hs.follows hf))).2
  rw [skipElement]
  split
  · rename_i hstart
    have ht := hs.follows hf
    have hclose : t.kind ≠ .punct .closeBrace := by
      have hcurrent : t.current = s.current := by
        rw [ht.current_eq_tokens ht.inside_tokens, hs.current_eq_tokens hs.inside_tokens]
        simp only [hstart]
      rw [ParserState.kind, hcurrent]
      exact hk
    exact hskip _ (hf.trans t.follows_advance) (habove.trans hf (.advance ht hclose))
  · exact hskip t hf habove

end Typeahead
