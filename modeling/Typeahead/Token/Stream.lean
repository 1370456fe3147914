/-
# A cursor over tokens

A list of tokens that ends with the end of the input, and a position in it. At
the end the cursor stays: reading on yields the end of the input again.

Key definitions: `TokenStream`, `TokenStream.ofTokens`, `TokenStream.peek`,
`TokenStream.advance`, `TokenStream.reset`.
Key theorems: `tokens_advance`, `position_le_advance`.
-/
import Typeahead.Token.Scan

namespace Typeahead

/-- Tokens, the last of which is the end of the input, and a place among them. -/
structure TokenStream where
  tokens : Array Token
  position : Nat
  nonempty : 0 < tokens.size

namespace TokenStream

/-- A stream at the first of `tokens`; the end of the input is added if it is
missing. -/
def ofTokens (tokens : List Token) : TokenStream :=
  match _h : tokens.getLast? with
  | some last =>
    if last.kind = .endOfInput then
      ⟨tokens.toArray, 0, by
        cases tokens with
        | nil => simp at _h
        | cons _ _ => simp⟩
    else ⟨(tokens ++ [Token.endOfInput last.stop]).toArray, 0, by simp⟩
  | none => ⟨#[Token.endOfInput 0], 0, by decide⟩

/-- The stream of a script's tokens. -/
def ofText (text : List Char) : TokenStream := ofTokens (tokenize text)

/-- The index of the end of the input. -/
def lastIndex (s : TokenStream) : Nat := s.tokens.size - 1

/-- The token `n` places ahead; past the end it is the end of the input. -/
def peekAhead (s : TokenStream) (n : Nat) : Token :=
  have : min (s.position + n) s.lastIndex < s.tokens.size := by
    have := s.nonempty
    unfold lastIndex
    omega
  s.tokens[min (s.position + n) s.lastIndex]

/-- The current token. -/
def peek (s : TokenStream) : Token := s.peekAhead 0

/-- The kind of the current token. -/
def kind (s : TokenStream) : TokenKind := s.peek.kind

/-- The current token is the end of the input. -/
def atEnd (s : TokenStream) : Bool := s.kind == .endOfInput

/-- The token before the current one. -/
def previous? (s : TokenStream) : Option Token :=
  if s.position = 0 then none else s.tokens[s.position - 1]?

/-- The stream one token on, or the same at the end. -/
def advance (s : TokenStream) : TokenStream :=
  if s.position < s.lastIndex then { s with position := s.position + 1 } else s

/-- The stream at a position, at most the last. -/
def reset (s : TokenStream) (position : Nat) : TokenStream :=
  { s with position := min position s.lastIndex }

theorem tokens_advance (s : TokenStream) : s.advance.tokens = s.tokens := by
  unfold advance; split <;> rfl

theorem position_le_advance (s : TokenStream) : s.position ≤ s.advance.position := by
  unfold advance; split <;> simp

end TokenStream
end Typeahead
