/-
# Completing

The word in front of the cursor is what has been typed. What is offered there is cut
down to what matches it, and ordered: by how it matches, then by how recently it was
accepted, then by the order of the items, their sort texts and their labels.

Key definitions: `Completion.compareRanked`, `Completion.rank`, `Document.complete`,
`Document.completeAt`, `complete`.
-/
import Typeahead.Completion.Collation
import Typeahead.Completion.Markup
import Typeahead.Completion.Matching
import Typeahead.Completion.Recency
import Typeahead.Completion.Script

namespace Typeahead

namespace Completion

/-- An item that matches, with its tier and its place among the accepted labels. -/
structure RankedItem where
  tier : MatchTier
  recency : Nat
  item : CompletionItem

/-- An item as it ranks, if it matches. An item that was not accepted comes after those
that were. -/
def ranked? (options : CompletionOptions) (recent : RecencyTracker) (typed : List Char)
    (item : CompletionItem) : Option RankedItem :=
  (matchTier? options typed item.label.toList).map fun tier =>
    ⟨tier, (recent.rank? item.label).getD recent.labels.length, item⟩

/-- The order of two items. -/
def compareRanked (a b : RankedItem) : Ordering :=
  (compare a.tier.rank b.tier.rank).then <|
  (compare a.recency b.recency).then <|
  (compare a.item.order b.item.order).then <|
  (Collation.compare a.item.sortText.toList b.item.sortText.toList).then <|
  Collation.compare a.item.label.toList b.item.label.toList

/-- The items that match, in order, as many as are wanted. Items that tie keep their
order. -/
def rank (options : CompletionOptions) (recent : RecencyTracker) (typed : List Char)
    (items : List CompletionItem) : List CompletionItem :=
  let ordered := (items.filterMap (ranked? options recent typed)).mergeSort
    fun a b => (compareRanked a b).isLE
  let entries := ordered.map (·.item)
  if options.maxResults = 0 then entries else entries.take options.maxResults

/-- A character that belongs to a word of a language. -/
def isWordChar (language : Language) (c : Char) : Bool :=
  if language.isScript then Text.isIdentifierPart c
  else Text.isLetter c || Text.isNumber c || c == '-' || c == '_'

/-- The text in front of the word that a text ends with, and that word. -/
def splitWord (language : Language) (text : List Char) : List Char × List Char :=
  let reversed := text.reverse
  ((reversed.dropWhile (isWordChar language)).reverse,
    (reversed.takeWhile (isWordChar language)).reverse)

end Completion

namespace Document

open Completion

/-- The completion at an offset; past the end it is the end. -/
def complete (options : CompletionOptions) (recent : RecencyTracker) (d : Document) (offset : Nat) :
    CompletionResult :=
  let offset := min offset d.length
  let (before, word) := splitWord d.language (Text.takeUnits offset d.text)
  let typed := String.ofList word
  let result := match d.language with
    | .javascript | .typescript => inScript options d (Text.unitLength before) offset typed
    | .html => inHtml before typed
    | .css => inCss before typed
  { result with entries := rank options recent word result.entries }

/-- The completion at a place, unless its line is past the end. -/
def completeAt (options : CompletionOptions) (recent : RecencyTracker) (d : Document)
    (p : Position) : Option CompletionResult :=
  (d.lines.offset? p).map (d.complete options recent)

end Document

/-- The completion at an offset of a text. -/
def complete (options : CompletionOptions) (recent : RecencyTracker) (text : List Char)
    (language : Language) (offset : Nat) : CompletionResult :=
  (Document.ofText text language).complete options recent offset

end Typeahead
