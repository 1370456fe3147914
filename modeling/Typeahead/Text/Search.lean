/-
# Finding parts of a text

Key definitions: `occursIn`, `lastIndexOf?`, `words`.
-/
import Typeahead.Text.Blank

namespace Typeahead.Text

/-- The part occurs in the text. -/
def occursIn (part : List Char) : List Char → Bool
  | [] => part.isEmpty
  | c :: rest => part.isPrefixOf (c :: rest) || occursIn part rest

/-- How many characters come before the last occurrence of a part. -/
def lastIndexOf? (part : List Char) : List Char → Option Nat
  | [] => if part.isEmpty then some 0 else none
  | c :: rest =>
    match lastIndexOf? part rest with
    | some index => some (index + 1)
    | none => if part.isPrefixOf (c :: rest) then some 0 else none

/-- The words of a text, `word` being the start of the first, read from its end. -/
def wordsFrom (word : List Char) : List Char → List (List Char)
  | [] => if word.isEmpty then [] else [word.reverse]
  | c :: rest =>
    if isBlank c then
      if word.isEmpty then wordsFrom [] rest else word.reverse :: wordsFrom [] rest
    else wordsFrom (c :: word) rest

/-- The words of a text: the longest pieces without blanks. -/
def words (text : List Char) : List (List Char) := wordsFrom [] text

end Typeahead.Text
