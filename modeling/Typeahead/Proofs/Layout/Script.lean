/-
# The layout of a script

The tokens of a text are in order, so the statements of a script are: they follow one another,
none reaches further than one offset past the text, and how deep scopes lie one in another is
bounded, whatever the text.

Key definition: `LaidOut`.
Key theorems: `sound_startOf`, `laidOut_parseDocument`, `laidOut_parseProgram`, `tight_parseProgram`.
-/
import Typeahead.Proofs.Layout.Statements
import Typeahead.Proofs.Modes

namespace Typeahead

open Text Parse Grammar

/-- Nodes that follow one another between two offsets, with at most so many scopes one in another. -/
structure LaidOut (first last most : Nat) (nodes : List Node) : Prop where
  inOrder : InOrder first nodes
  placed : ∀ n ∈ nodes, n.Placed
  within : ∀ n ∈ nodes, n.EndsWithin last
  scopes : ∀ n ∈ nodes, n.ScopesWithin most

theorem position_ofText (text : List Char) : (TokenStream.ofText text).position = 0 := by
  rw [TokenStream.ofText, TokenStream.ofTokens]
  split
  · split <;> rfl
  · rfl

/-- The tokens of a text follow one another. -/
theorem sound_startOf (text : List Char) (recovering memory : Bool) :
    (ParserState.startOf text recovering memory).Sound := by
  have hcovers := covers_scanFrom false text
  obtain ⟨front, last, h, hkind, -, hstart, hstop, hfront⟩ := hcovers.endsOnce
  have htokens : (ParserState.startOf text recovering memory).stream.tokens = (front ++ [last]).toArray :=
    (tokens_ofText text).trans (congrArg List.toArray h)
  have hsize : (ParserState.startOf text recovering memory).stream.tokens.size = front.length + 1 := by
    rw [htokens]
    simp
  have hlength : (front ++ [last]).length = front.length + 1 := by simp
  have hget : ∀ i (hi : i < (ParserState.startOf text recovering memory).stream.tokens.size)
      (hi' : i < (front ++ [last]).length),
      (ParserState.startOf text recovering memory).stream.tokens[i] = (front ++ [last])[i] := by
    intro i hi hi'
    simp only [htokens, List.getElem_toArray]
  have hcases : ∀ i (hi : i < (front ++ [last]).length), (∃ hi' : i < front.length, (front ++ [last])[i] = front[i]) ∨
      (i = front.length ∧ (front ++ [last])[i] = last) := by
    intro i hi
    by_cases hlt : i < front.length
    · exact .inl ⟨hlt, List.getElem_append_left hlt⟩
    · obtain rfl : i = front.length := by omega
      exact .inr ⟨rfl, by simp⟩
  have hfilled : ∀ t ∈ front, t.start < t.stop := by
    intro t ht
    obtain ⟨_, _, -, -, hspelled⟩ := hcovers.spelled t (h ▸ List.mem_append_left _ ht)
    have hne : t.text.toList ≠ [] := fun hnil => (hfront t ht).2 (String.ext hnil)
    obtain ⟨c, rest, hc⟩ := List.exists_cons_of_ne_nil hne
    have := unitLength_pos (List.length_pos_iff.2 hne)
    omega
  have horder := h ▸ hcovers.inOrder
  refine ⟨?_, ?_, ?_, ?_, ?_⟩
  · rw [hsize]
    exact Nat.lt_of_le_of_lt (Nat.le_of_eq (position_ofText text)) (Nat.succ_pos _)
  · intro i j hi hj hlt
    rw [hget i hi (by omega), hget j hj (by omega)]
    exact List.pairwise_iff_getElem.1 horder i j _ _ hlt
  · intro i hi
    rw [hget i hi (by omega)]
    rcases hcases i (by omega) with ⟨hlt, he⟩ | ⟨-, he⟩ <;> rw [he]
    · exact Nat.le_of_lt (hfilled _ (List.getElem_mem hlt))
    · omega
  · intro i hi hk
    rw [hget i hi (by omega)] at hk ⊢
    rcases hcases i (by omega) with ⟨hlt, he⟩ | ⟨-, he⟩ <;> rw [he] at hk ⊢
    · exact hfilled _ (List.getElem_mem hlt)
    · exact absurd hkind hk
  · intro i hi
    rw [hget i hi (by omega)]
    rcases hcases i (by omega) with ⟨hlt, he⟩ | ⟨heq, he⟩ <;> rw [he]
    · exact ⟨fun hk => absurd hk (hfront _ (List.getElem_mem hlt)).1, fun hk => by omega⟩
    · exact ⟨fun _ => by omega, fun _ => hkind⟩

variable {text : List Char} {recovering memory : Bool}

theorem lays_script {levels : Nat} {body : List Node} {t : ParserState}
    (h : script (parseLevel levels) (.startOf text recovering memory) = .ok body t) :
    Lays (Node.ScopesWithin (scopesAt 0)) (.startOf text recovering memory) t body :=
  have hsound : ParserState.SoundAt 0 (.startOf text recovering memory) := ⟨sound_startOf text recovering memory, rfl⟩
  .collectUntil hsound.toSound (fun _ _ _ hf _ hstep =>
    lays_listedStatement (parseLevel_lays levels) (hsound.follows hf) hstep) h

/-- The statements of a script are laid out between the start of the text and one offset past it. -/
theorem laidOut_script {levels : Nat} {body : List Node} {t : ParserState}
    (h : script (parseLevel levels) (.startOf text recovering memory) = .ok body t) :
    LaidOut 0 (unitLength text + 1) (scopesAt 0) body := by
  have hlays := lays_script h
  have hreach : t.reach ≤ unitLength text + 1 := by
    have ht := hlays.sound_after
    have htokens : t.stream.tokens = (TokenStream.ofText text).tokens := hlays.follows.tokens
    have hlast := ht.lastStop_le_offset
    have hstop := ht.offset_le_stop
    have hle := (stop_le_unitLength htokens).2
    rw [ParserState.reach]
    split <;> omega
  exact ⟨hlays.inOrder.mono (Nat.zero_le _), hlays.placed, fun n hn => (hlays.within n hn).mono hreach, hlays.holds⟩

/-- **A document is laid out**, whatever its text. -/
theorem laidOut_parseDocument (text : List Char) : ∃ range body,
    (parseDocument text).1 = ⟨range, .program body⟩ ∧ LaidOut 0 (unitLength text + 1) (scopesAt 0) body := by
  obtain ⟨body, t, hrun⟩ := script_recovers text true (levelsOf text)
  have hparse := parseDocument_eq.2 (document_run hrun)
  exact ⟨_, body, by rw [hparse]; rfl, laidOut_script hrun⟩

/-- A program is laid out. -/
theorem laidOut_parseProgram {P : Node} (h : parseProgram text = .ok P) : ∃ range body,
    P = ⟨range, .program body⟩ ∧ LaidOut 0 (unitLength text + 1) (scopesAt 0) body := by
  obtain ⟨body, t, hrun, rfl⟩ := (program_ok : program.result (.startOf text false true) = .ok _ ↔ _).1 h
  exact ⟨_, body, rfl, laidOut_script hrun.1⟩

/-- In a program every node ends where what it holds ends, or later. -/
theorem tight_parseProgram {range : TextRange} {body : List Node}
    (h : parseProgram text = .ok ⟨range, .program body⟩) : ∀ n ∈ body, n.Tight := by
  obtain ⟨body', t, hrun, heq⟩ := (program_ok : program.result (.startOf text false true) = .ok _ ↔ _).1 h
  cases heq
  exact (lays_script hrun.1).tight rfl

end Typeahead
