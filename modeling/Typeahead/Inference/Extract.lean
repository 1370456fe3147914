/-
# The chain in front of the cursor

The access chain that ends at the cursor is found by reading the text backwards:
names, dots, bracketed groups, and at last a string. Texts here are read from their
ends, the nearest character first.

Key definitions: `Extract.reach`, `expressionBefore`.
-/
import Typeahead.Text.Blank
import Typeahead.Text.Identifier
import Typeahead.Text.Quoting
import Typeahead.Text.Units

namespace Typeahead

open Text

namespace Extract

/-- How many characters are looked at. -/
def scanLimit : Nat := 2000

/-- The character before these is not escaped: an even number of backslashes comes
first. -/
def isUnescaped (before : List Char) : Bool := (before.takeWhile (· == '\\')).length % 2 == 0

/-- The number of characters back to the mark that opens a string, of which the closing
mark has been read. -/
def stringLength? (mark : Char) : List Char → Option Nat
  | [] => none
  | c :: before =>
    if c = mark ∧ isUnescaped before then some 1 else (stringLength? mark before).map (· + 1)

/-- The number of characters back to the bracket that opens `depth` closed groups. In a
string, which `mark` ends, brackets do not count. -/
def groupLength? (mark : Option Char) (depth : Nat) : List Char → Option Nat
  | [] => none
  | c :: before =>
    match mark with
    | some m =>
      let mark := if c = m ∧ isUnescaped before then none else some m
      (groupLength? mark depth before).map (· + 1)
    | none =>
      if isQuote c then (groupLength? (some c) depth before).map (· + 1)
      else if isClosing c then (groupLength? none (depth + 1) before).map (· + 1)
      else if isOpening c then
        match depth with
        | 0 => none
        | 1 => some 1
        | depth + 1 => (groupLength? none depth before).map (· + 1)
      else (groupLength? none depth before).map (· + 1)

/-- The number of characters that belong to the chain. `next` is the character after
these if it belongs to the chain. -/
def reach (next : Option Char) : List Char → Nat
  | [] => 0
  | c :: before =>
    if isIdentifierPart c || c == '.' || (c == '?' && next == some '.') then
      1 + reach (some c) before
    else if c == ')' || c == ']' then
      match groupLength? none 1 before with
      | some length => 1 + length + reach none (before.drop length)
      | none => 0
    else if isQuote c then ((stringLength? c before).map (· + 1)).getD 0
    else 0
termination_by before => before.length
decreasing_by
  · simp
  · simp only [List.length_drop, List.length_cons]; omega

/-- A word `new` and the blanks after it, directly before a name. -/
def newBefore (before : List Char) : List Char :=
  let blanks := before.takeWhile isBlank
  match blanks, before.drop blanks.length with
  | _ :: _, 'w' :: 'e' :: 'n' :: more =>
    if more.head?.any isIdentifierPart then [] else 'n' :: 'e' :: 'w' :: blanks.reverse
  | _, _ => []

/-- The chain before the cursor. Dots it would begin with do not belong to it, and a word
`new` in front of it does. -/
def chainBefore (before : List Char) : List Char :=
  let chain := (before.take (reach none before)).reverse.dropWhile fun c => c == '.' || c == '?'
  if chain.head?.any isIdentifierPart then newBefore (before.drop chain.length) ++ chain else chain

end Extract

/-- The access chain that ends at an offset. -/
def expressionBefore (text : List Char) (offset : Nat) : List Char :=
  Extract.chainBefore ((takeUnits offset text).reverse.take Extract.scanLimit)

end Typeahead
