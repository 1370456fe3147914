/-
# Scanning

A script is read as a list of tokens that ends with the end of the input. Blanks
and, unless they are kept, comments separate tokens and leave no trace but the
line breaks among them. Scanning never fails: a character that begins no token
is a token of unknown kind.

Key definitions: `triviaLength`, `scanFrom`, `tokenize`, `tokenizeWithComments`.
Key theorem: `scanFrom_ne_nil`.
-/
import Typeahead.Token.Basic
import Typeahead.Token.Lexeme
import Typeahead.Text.Units

namespace Typeahead

open Text

/-- The blanks and, unless they are kept, comments that a text begins with. -/
def triviaLength (keepComments : Bool) (text : List Char) : Nat :=
  let blanks := (text.takeWhile isBlank).length
  if _h : !keepComments && startsComment (text.drop blanks) then
    let skipped := blanks + (commentExtent (text.drop blanks)).1
    skipped + triviaLength keepComments (text.drop skipped)
  else blanks
termination_by text.length
decreasing_by
  have h2 : 2 ≤ (commentExtent (text.drop blanks)).1 :=
    two_le_commentExtent (Bool.and_eq_true_iff.1 _h).2
  have : 0 < (text.drop blanks).length := by
    rcases hd : text.drop blanks with _ | ⟨c, rest⟩
    · simp [hd, startsComment] at _h
    · simp
  simp only [List.length_drop, blanks] at h2 this ⊢
  omega

/-- The token at offset `start` that takes `chars`. A comment that spans lines
counts as following a line break itself. -/
def Lexeme.toToken (lexeme : Lexeme) (start : Nat) (chars : List Char) (afterLineBreak : Bool) :
    Token where
  kind := lexeme.kind
  text := String.ofList chars
  start := start
  stop := start + unitLength chars
  afterLineBreak := afterLineBreak || (lexeme.kind == .comment && chars.any isLineTerminator)
  unterminated := lexeme.unterminated

/-- The tokens of a text that begins at `offset`. -/
def scanFrom (keepComments : Bool) (offset : Nat) (text : List Char) : List Token :=
  let skipped := triviaLength keepComments text
  let start := offset + unitLength (text.take skipped)
  let broken := (text.take skipped).any isLineTerminator
  match _h : text.drop skipped with
  | [] => [{ Token.endOfInput start with afterLineBreak := broken }]
  | c :: rest =>
    let lexeme := Lexeme.read keepComments c rest
    let token := lexeme.toToken start (c :: rest.take lexeme.extra) broken
    token :: scanFrom keepComments token.stop (rest.drop lexeme.extra)
termination_by text.length
decreasing_by
  have := congrArg List.length _h
  simp only [List.length_drop, List.length_cons] at this ⊢
  omega

/-- The tokens of a script, without comments. -/
def tokenize (text : List Char) : List Token := scanFrom false 0 text

/-- The tokens of a script, comments among them. -/
def tokenizeWithComments (text : List Char) : List Token := scanFrom true 0 text

/-- A scan yields at least the end of the input. -/
theorem scanFrom_ne_nil (keepComments : Bool) (offset : Nat) (text : List Char) :
    scanFrom keepComments offset text ≠ [] := by
  rw [scanFrom]
  simp only
  split <;> simp

end Typeahead
