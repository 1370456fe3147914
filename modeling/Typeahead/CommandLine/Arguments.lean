/-
# Arguments

What a command line asks for, and what may be wrong with it.

Key definitions: `Command`, `Arguments`, `UsageError`.
-/
import Typeahead.CommandLine.Parameter
import Typeahead.Completion.Options
import Typeahead.Language
import Typeahead.Text.Lines

namespace Typeahead

/-- How results are written. -/
inductive OutputFormat where
  | text | json
  deriving DecidableEq, Repr, Inhabited

/-- When text is coloured. -/
inductive ColorChoice where
  | auto | always | never
  deriving DecidableEq, Repr, Inhabited

/-- The file that a command works on, and its language if that is given. -/
structure InputArguments where
  file : String
  language : Option Language
  deriving DecidableEq, Repr, Inhabited

/-- Where the cursor is. -/
inductive Cursor where
  | atEnd
  | atOffset (offset : Nat)
  | atPosition (position : Position)
  deriving DecidableEq, Repr, Inhabited

/-- What a command line says of completion, over the options of the settings. -/
structure CompletionChoices where
  maxResults : Option Nat := none
  caseSensitive : Bool := false
  noCamelCase : Bool := false
  noKeywords : Bool := false
  noGlobals : Bool := false
  noBestGuess : Bool := false
  deriving DecidableEq, Repr, Inhabited

/-- The options with the choices over them. -/
def CompletionChoices.applyTo (choices : CompletionChoices) (options : CompletionOptions) :
    CompletionOptions :=
  { options with
    maxResults := choices.maxResults.getD options.maxResults
    caseSensitive := choices.caseSensitive || options.caseSensitive
    camelCaseMatching := options.camelCaseMatching && !choices.noCamelCase
    includeKeywords := options.includeKeywords && !choices.noKeywords
    includeGlobals := options.includeGlobals && !choices.noGlobals
    bestGuessTypes := options.bestGuessTypes && !choices.noBestGuess }

/-- What is to be done. `recent` holds accepted labels, the most recent first. -/
inductive Command where
  | tokens (input : InputArguments)
  | highlight (input : InputArguments)
  | parse (input : InputArguments) (isExpression : Bool)
  | scopes (input : InputArguments)
  | type (input : InputArguments) (cursor : Cursor) (chain : String) (showsMembers guesses : Bool)
  | complete (input : InputArguments) (cursor : Cursor) (choices : CompletionChoices)
      (recent : List String)
  deriving Repr, Inhabited

/-- What a command line asks for. -/
structure Arguments where
  config : Option String
  format : OutputFormat
  color : ColorChoice
  command : Command
  deriving Repr, Inhabited

/-- Why a command line is not carried out. -/
inductive UsageError where
  /-- Help was asked for. -/
  | helpWanted
  /-- The version was asked for. -/
  | versionWanted
  /-- Nothing was asked for. -/
  | nothingWanted
  /-- There are options, but no command. -/
  | missingCommand
  /-- No command has this name. -/
  | unknownCommand (word : String)
  /-- There is no such option, or no room for this word. -/
  | unknownArgument (word : String)
  /-- The value is missing or none of those that are possible. -/
  | invalidValue (parameter : Parameter) (value : Option String)
  /-- The value does not read as what is wanted. -/
  | unreadableValue (parameter : Parameter) (value : String)
  /-- A flag was given a value. -/
  | unwantedValue (parameter : Parameter) (value : String)
  /-- A parameter was given twice, or beside one that excludes it. -/
  | conflict (parameter other : Parameter)
  /-- A parameter that is needed is missing. -/
  | missing (parameter : Parameter)
  deriving DecidableEq, Repr, Inhabited

/-- What is said of an error. -/
def UsageError.message : UsageError → String
  | helpWanted | nothingWanted =>
    "Usage: caret [OPTIONS] <COMMAND>\n\nCommands:\n" ++
      String.join (CommandName.all.map fun c => "  " ++ c.text ++ "\n") ++
      "\nOptions:\n" ++ String.join (Parameter.leading.map fun p => "  " ++ p.text ++ "\n")
  | versionWanted => "caret\n"
  | missingCommand => "error: a command is needed\n"
  | unknownCommand word => "error: unrecognized subcommand '" ++ word ++ "'\n"
  | unknownArgument word => "error: unexpected argument '" ++ word ++ "' found\n"
  | invalidValue p none => "error: a value is required for '" ++ p.text ++ "'\n"
  | invalidValue p (some value) | unreadableValue p value =>
    "error: invalid value '" ++ value ++ "' for '" ++ p.text ++ "'\n"
  | unwantedValue p value => "error: unexpected value '" ++ value ++ "' for '" ++ p.text ++ "'\n"
  | conflict p other => "error: '" ++ p.text ++ "' cannot be used with '" ++ other.text ++ "'\n"
  | missing p => "error: '" ++ p.text ++ "' was not provided\n"

/-- Help or the version was asked for, so that its text is an answer. -/
def UsageError.isAnswer : UsageError → Bool
  | helpWanted | versionWanted => true
  | _ => false

end Typeahead
