/-
# The tokens of a script

The tokens over which a script is parsed are those of the scan. The last of them is the end
of the input, at the end of the text, and no other token is of that kind.

Key theorems: `tokens_ofText`, `closed_ofText`, `stop_of_end`.
-/
import Typeahead.Proofs.Scan
import Typeahead.Proofs.Parse.Begins

namespace Typeahead

open Text

variable {text : List Char} {s : ParserState}

/-- The tokens of a script end with the one end of the input. -/
theorem tokenize_ends (text : List Char) : ∃ front last, tokenize text = front ++ [last] ∧
    last.kind = .endOfInput ∧ last.stop = unitLength text ∧ ∀ t ∈ front, t.kind ≠ .endOfInput := by
  obtain ⟨front, last, h, hkind, -, -, hstop, hfront⟩ := (covers_scanFrom false text).endsOnce
  exact ⟨front, last, h, hkind, hstop, fun t ht => (hfront t ht).1⟩

theorem tokens_ofText (text : List Char) :
    (TokenStream.ofText text).tokens = (tokenize text).toArray := by
  obtain ⟨front, last, h, hkind, -, -⟩ := tokenize_ends text
  have hlast : (tokenize text).getLast? = some last := by rw [h]; simp
  rw [TokenStream.ofText, TokenStream.ofTokens]
  split
  · rename_i last' h'
    cases hlast.symm.trans h'
    rw [if_pos hkind]
  · rename_i h'
    cases hlast.symm.trans h'

/-- The current token of a script is the end of the input only at its end. -/
theorem stop_of_end (hs : s.stream.tokens = (TokenStream.ofText text).tokens)
    (hk : s.kind = .endOfInput) : s.current.stop = unitLength text := by
  obtain ⟨front, last, h, -, hstop, hfront⟩ := tokenize_ends text
  have hmem : s.current ∈ s.stream.tokens := Array.getElem_mem _
  rw [hs, tokens_ofText, h, List.mem_toArray, List.mem_append, List.mem_singleton] at hmem
  rcases hmem with hmem | hmem
  · exact absurd hk (hfront _ hmem)
  · rw [hmem, hstop]

theorem closed_ofText (hs : s.stream.tokens = (TokenStream.ofText text).tokens) : s.Closed := by
  obtain ⟨front, last, h, hkind, -, -⟩ := tokenize_ends text
  intro hlast
  have htokens : s.stream.tokens = (front ++ [last]).toArray := by rw [hs, tokens_ofText, h]
  simp only [TokenStream.lastIndex, htokens, List.getElem_toArray]
  simp [hkind]

/-- The current token of a script stands in its text. -/
theorem stop_le_unitLength (hs : s.stream.tokens = (TokenStream.ofText text).tokens) :
    s.offset ≤ s.current.stop ∧ s.current.stop ≤ unitLength text := by
  have hmem : s.current ∈ s.stream.tokens := Array.getElem_mem _
  rw [hs, tokens_ofText, List.mem_toArray] at hmem
  obtain ⟨_, _, happend, hstart, hspelled⟩ := (covers_scanFrom false text).spelled _ hmem
  have := congrArg unitLength happend
  simp only [unitLength_append] at this
  rw [ParserState.offset]
  omega

end Typeahead
