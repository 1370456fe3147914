/-
# Matching labels

A label matches what has been typed if it starts with it, in the same case or in any,
or if what has been typed picks out starts of words in it, as `gEBI` does in
`getElementById`: each typed character is the one after the last picked character or
the start of a later word.

Key definitions: `MatchTier`, `matchTier?`, `camelCaseMatch`, `isWordStart`.
-/
import Typeahead.Completion.Options
import Typeahead.Text.LetterCase

namespace Typeahead

open Text

/-- How a label matches what has been typed, the best way first. -/
inductive MatchTier where
  | sameCase | anyCase | wordStarts
  deriving DecidableEq, Repr, Inhabited

namespace MatchTier

/-- The name under which a tier is reported. -/
def name : MatchTier → String
  | .sameCase => "CaseSensitivePrefix"
  | .anyCase => "Prefix"
  | .wordStarts => "CamelCase"

/-- The place of a tier among the tiers. -/
def rank : MatchTier → Nat
  | .sameCase => 0
  | .anyCase => 1
  | .wordStarts => 2

end MatchTier

/-- Two characters are the same up to case. -/
def sameUpToCase (a b : Char) : Bool := lowerCase a == lowerCase b

/-- The label starts with what has been typed, up to case. -/
def startsUpToCase : (typed label : List Char) → Bool
  | [], _ => true
  | _ :: _, [] => false
  | t :: typed, c :: label => sameUpToCase c t && startsUpToCase typed label

/-- A character starts a word after another: after `_`, `-` and `$` every other one does,
and so does an upper-case letter or a digit after what is none. -/
def startsWord (previous current : Char) : Bool :=
  if previous == '_' || previous == '-' || previous == '$' then current != previous
  else isUpper current && !isUpper previous || current.isDigit && !previous.isDigit

/-- The character at an index of a label starts a word. -/
def isWordStart (label : List Char) (index : Nat) : Bool :=
  match label[index]?, index with
  | none, _ => false
  | some _, 0 => true
  | some current, before + 1 => (label[before]?.map fun p => startsWord p current).getD true

namespace CamelCase

/-- The longest label that is looked at. -/
def labelLimit : Nat := 128

/-- Characters are compared with or without regard to case. -/
def same (caseSensitive : Bool) (a b : Char) : Bool :=
  if caseSensitive then a == b else sameUpToCase a b

/-- Where words start in a label. -/
def starts (label : List Char) : List Nat := (List.range label.length).filter (isWordStart label)

/-- Where the next typed character can be picked: at `place`, or where a later word
starts. -/
def candidates (label : List Char) (place : Nat) : List Nat :=
  place :: (starts label).filter (place < ·)

/-- What is known of the places of a label, in a row for each typed character: whether
the rest of what has been typed can be picked from there on. -/
abbrev Memo := Array (Option Bool)

/-- A search that remembers. It fails if it looks outside of its memory. -/
abbrev Search := StateT Memo Option

/-- What is remembered in a slot. -/
def remembered (slot : Nat) : Search (Option Bool) := fun memo => memo[slot]?.map (·, memo)

/-- Remembers an answer in a slot. -/
def remember (slot : Nat) (found : Bool) : Search Unit := fun memo =>
  if h : slot < memo.size then some ((), memo.set slot (some found) h) else none

/-- Whether what is left of what has been typed, behind its first `index` characters,
can be picked from `place` on. Each place is decided once. -/
def search (caseSensitive : Bool) (label : List Char) :
    (rest : List Char) → (index place : Nat) → Search Bool
  | [], _, _ => pure true
  | wanted :: rest, index, place => do
    let slot := index * (label.length + 1) + place
    match ← remembered slot with
    | some known => return known
    | none =>
      let found ← (candidates label place).anyM fun j =>
        if label[j]?.any (same caseSensitive wanted) then
          search caseSensitive label rest (index + 1) (j + 1)
        else pure false
      remember slot found
      return found

end CamelCase

open CamelCase in
/-- What has been typed picks out starts of words in a label, the first character being
that of the label; nothing if the search looks outside of its memory. -/
def camelCaseMatch? (caseSensitive : Bool) (typed label : List Char) : Option Bool :=
  match typed, label with
  | [], _ => some true
  | _ :: _, [] => some false
  | t :: rest, c :: _ =>
    if label.length ≤ labelLimit && typed.length ≤ label.length && same caseSensitive t c then
      (search caseSensitive label rest 1 1 (.replicate (typed.length * (label.length + 1)) none)).map
        (·.1)
    else some false

/-- What has been typed picks out starts of words in a label. -/
def camelCaseMatch (caseSensitive : Bool) (typed label : List Char) : Bool :=
  (camelCaseMatch? caseSensitive typed label).getD false

/-- The tier at which a label matches what has been typed. -/
def matchTier? (options : CompletionOptions) (typed label : List Char) : Option MatchTier :=
  if typed.isPrefixOf label then some .sameCase
  else if !options.caseSensitive && startsUpToCase typed label then some .anyCase
  else if options.camelCaseMatching && camelCaseMatch options.caseSensitive typed label then
    some .wordStarts
  else none

end Typeahead
