/-
# Settings

The settings of the command line: the language of texts that do not tell theirs, and
the options of completion. They are read from JSON5 text, in which every field may
be missing.

Key definitions: `Settings`, `Settings.ofText?`, `Settings.languageFor`.
-/
import Typeahead.Completion.Options
import Typeahead.Config.Field
import Typeahead.Language

namespace Typeahead

/-- The settings. -/
structure Settings where
  defaultLanguage : Option Language := none
  completion : CompletionOptions := {}
  deriving DecidableEq, Repr, Inhabited

/-- The options of completion that a value writes; it may have other fields too. -/
def CompletionOptions.ofJson5? (value : Json5) : Option CompletionOptions := do
  let fields ← value.fields?
    ["maxResults", "includeKeywords", "includeGlobals", "caseSensitive", "camelCaseMatching",
      "recencyCapacity", "bestGuessTypes"] true
  let count (name : String) (missing : Nat) := Json5.field? fields Json5.toCount? name missing
  let switch (name : String) (missing : Bool) := Json5.field? fields Json5.toBool? name missing
  let usual : CompletionOptions := {}
  some {
    maxResults := ← count "maxResults" usual.maxResults
    includeKeywords := ← switch "includeKeywords" usual.includeKeywords
    includeGlobals := ← switch "includeGlobals" usual.includeGlobals
    caseSensitive := ← switch "caseSensitive" usual.caseSensitive
    camelCaseMatching := ← switch "camelCaseMatching" usual.camelCaseMatching
    recencyCapacity := ← count "recencyCapacity" usual.recencyCapacity
    bestGuessTypes := ← switch "bestGuessTypes" usual.bestGuessTypes }

/-- The language of an identifier as it is written in settings, where its spelling has
to be exact. -/
def Language.ofExactId? (id : String) : Option Language :=
  [Language.javascript, .typescript, .html, .css].find? (·.id == id)

namespace Settings

/-- The language that a value chooses, or none for `null`. -/
def language? : Json5 → Option (Option Language)
  | .null => some none
  | value => value.choice?.bind fun id => (Language.ofExactId? id).map some

/-- The settings that a value writes; it has no other fields. -/
def ofJson5? (value : Json5) : Option Settings := do
  let fields ← value.fields? ["defaultLanguage", "completion"] false
  some {
    defaultLanguage := ← Json5.field? fields language? "defaultLanguage" none
    completion := ← Json5.field? fields CompletionOptions.ofJson5? "completion" {} }

/-- The settings that a text writes. -/
def ofText? (text : List Char) : Option Settings := (Json5.ofText? text).bind ofJson5?

/-- What is said of a text that writes no settings. -/
def unreadableMessage : String := "failed to parse caret config"

/-- The last part of a path that names something, if that is not the directory above. -/
def fileName? (path : String) : Option (List Char) :=
  let parts := (path.toList.splitOn '/').filter fun part => part ≠ [] ∧ part ≠ ['.']
  parts.getLast?.filter (· ≠ ['.', '.'])

/-- What follows the last point of a file name, unless that starts the name. -/
def fileExtension? (path : String) : Option String := do
  let reversed := (← fileName? path).reverse
  let ending := reversed.takeWhile (· ≠ '.')
  let stem := reversed.drop (ending.length + 1)
  if stem.isEmpty then none else some (String.ofList ending.reverse)

/-- The language of a file: the one asked for, else that of its extension, else the
default one, else JavaScript. -/
def languageFor (settings : Settings) (path : String) (asked : Option Language) : Language :=
  (asked <|> (fileExtension? path).bind Language.ofId? <|> settings.defaultLanguage).getD .javascript

end Settings
end Typeahead
