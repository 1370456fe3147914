/-
# Parameters of the command line

A command line gives a file, options with a value, and flags. Each command has
parameters of its own; some belong to the program as a whole and may stand before or
after the name of the command.

Key definitions: `Parameter`, `CommandName`, `CommandName.parameters`.
-/
namespace Typeahead

/-- What a command line can give: the file, an option or a flag. -/
inductive Parameter where
  | file | config | format | color | help | version
  | language | expression | chain | line | column | offset | members
  | maxResults | caseSensitive | noCamelCase | noKeywords | noGlobals | noBestGuess | recent
  deriving DecidableEq, Repr, Inhabited

namespace Parameter

/-- The word after two dashes. The file has none. -/
def word? : Parameter → Option String
  | file => none
  | config => some "config"
  | format => some "format"
  | color => some "color"
  | help => some "help"
  | version => some "version"
  | language => some "language"
  | expression => some "expression"
  | chain => some "expr"
  | line => some "line"
  | column => some "column"
  | offset => some "offset"
  | members => some "members"
  | maxResults => some "max-results"
  | caseSensitive => some "case-sensitive"
  | noCamelCase => some "no-camel-case"
  | noKeywords => some "no-keywords"
  | noGlobals => some "no-globals"
  | noBestGuess => some "no-best-guess"
  | recent => some "recent"

/-- The letter after one dash. -/
def letter? : Parameter → Option Char
  | config => some 'c'
  | help => some 'h'
  | version => some 'V'
  | language => some 'l'
  | chain => some 'e'
  | _ => none

/-- A parameter that is given a value. -/
def takesValue : Parameter → Bool
  | help | version | expression | members | caseSensitive | noCamelCase | noKeywords | noGlobals
  | noBestGuess => false
  | _ => true

/-- A parameter that may be given more than once. -/
def isRepeatable (p : Parameter) : Bool := p = recent

/-- A parameter as a message names it. -/
def text (p : Parameter) : String :=
  match p.word? with
  | some word => "--" ++ word
  | none => "<FILE>"

/-- The options of the program as a whole, which every command has. -/
def shared : List Parameter := [config, format, color, help]

/-- The options that may stand before the name of a command. -/
def leading : List Parameter := shared ++ [version]

end Parameter

/-- The commands. -/
inductive CommandName where
  | tokens | highlight | parse | scopes | type | complete
  deriving DecidableEq, Repr, Inhabited

namespace CommandName

/-- The spelling of a command. -/
def text : CommandName → String
  | tokens => "tokens"
  | highlight => "highlight"
  | parse => "parse"
  | scopes => "scopes"
  | type => "type"
  | complete => "complete"

/-- All commands. -/
def all : List CommandName := [tokens, highlight, parse, scopes, type, complete]

/-- The command of a spelling. -/
def ofText? (text : String) : Option CommandName := all.find? (·.text == text)

/-- The options that tell where the cursor is. -/
def cursorParameters : List Parameter := [.line, .column, .offset]

/-- The parameters that only this command or some others have. -/
def own : CommandName → List Parameter
  | tokens | highlight | scopes => []
  | parse => [.expression]
  | type => cursorParameters ++ [.chain, .members, .noBestGuess]
  | complete =>
    cursorParameters ++ [.maxResults, .caseSensitive, .noCamelCase, .noKeywords, .noGlobals,
      .noBestGuess, .recent]

/-- The parameters of a command. -/
def parameters (c : CommandName) : List Parameter :=
  [.file, .language] ++ c.own ++ Parameter.shared

end CommandName
end Typeahead
