/-
# Options of completion

Key definition: `CompletionOptions`.
-/
namespace Typeahead

/-- What a completion offers. `maxResults` is how many entries are kept, all of them if
it is 0, and `recencyCapacity` how many accepted labels are remembered. -/
structure CompletionOptions where
  maxResults : Nat := 100
  includeKeywords : Bool := true
  includeGlobals : Bool := true
  caseSensitive : Bool := false
  camelCaseMatching : Bool := true
  recencyCapacity : Nat := 32
  bestGuessTypes : Bool := true
  deriving DecidableEq, Repr, Inhabited

end Typeahead
