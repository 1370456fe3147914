/-
# Running commands

A command reads the settings and then its file, and answers with the text to print.
Files are read through `Files`, so that the same commands run over any store of them.

Key definitions: `Files`, `RunError`, `Arguments.run`.
-/
import Typeahead.CommandLine.Arguments
import Typeahead.Completion.Complete
import Typeahead.Config.Settings
import Typeahead.Grammar.Script
import Typeahead.Report.Completion
import Typeahead.Report.Scopes
import Typeahead.Report.Text
import Typeahead.Report.Tree

namespace Typeahead

/-- Where texts are read from. A text that cannot be read is none. -/
structure Files (m : Type → Type) where
  isFile : String → m Bool
  read? : String → m (Option String)
  standardInput? : m (Option String)

/-- Why a command has no answer. -/
inductive RunError where
  | unreadableSettings (path : String)
  | invalidSettings (path : String)
  | unreadableFile (path : String)
  | unreadableInput
  /-- The command works on scripts. -/
  | notScript (command : CommandName) (path : String) (language : Language)
  | unparsed (path : String) (fault : ParseError)
  | offsetPastEnd (offset length : Nat)
  | linePastEnd (line : Nat)
  deriving DecidableEq, Repr, Inhabited

namespace RunError

/-- What is said of an error. -/
def message : RunError → String
  | unreadableSettings path => "failed to read config: " ++ path
  | invalidSettings path => "invalid config: " ++ path
  | unreadableFile path => "failed to read " ++ path
  | unreadableInput => "failed to read stdin"
  | notScript command path language =>
    "\x60" ++ command.text ++ "\x60 works on JavaScript or TypeScript, " ++ path ++ " is "
      ++ language.id
  | unparsed path _ => "failed to parse " ++ path
  | offsetPastEnd offset length =>
    s!"offset {offset} is past the end of the document ({length} UTF-16 units)"
  | linePastEnd line => s!"line {line} is past the end of the document"

/-- The fault that an error comes from. -/
def fault? : RunError → Option ParseError
  | unparsed _ fault => some fault
  | _ => none

/-- What is said of the cause of an error. -/
def cause? : RunError → Option String
  | invalidSettings _ => some Settings.unreadableMessage
  | error => error.fault?.map ParseError.message

/-- What is printed of an error. -/
def report (error : RunError) : String :=
  "Error: " ++ error.message
    ++ ((error.cause?.map fun cause => "\n\nCaused by:\n    " ++ cause).getD "") ++ "\n"

end RunError

/-- A file and its language. -/
structure Input where
  path : String
  text : List Char
  language : Language
  deriving Repr, Inhabited

/-- The file that a command works on. -/
def Command.input : Command → InputArguments
  | .tokens input => input
  | .highlight input => input
  | .parse input _ => input
  | .scopes input => input
  | .type input .. => input
  | .complete input .. => input

/-- The name of a command. -/
def Command.name : Command → CommandName
  | .tokens _ => .tokens
  | .highlight _ => .highlight
  | .parse .. => .parse
  | .scopes _ => .scopes
  | .type .. => .type
  | .complete .. => .complete

/-- The offset of a cursor, which lies in the document. -/
def Cursor.offsetIn (cursor : Cursor) (d : Document) : Except RunError Nat :=
  match cursor with
  | .atEnd => .ok d.length
  | .atOffset offset =>
    if offset ≤ d.length then .ok offset else .error (.offsetPastEnd offset d.length)
  | .atPosition position =>
    match d.lines.offset? position with
    | some offset => .ok offset
    | none => .error (.linePastEnd position.line)

/-- A value as a whole text. -/
def Json.document (value : Json) : String := value.pretty ++ "\n"

/-- A result in a format. -/
def OutputFormat.write (format : OutputFormat) (json : Json) (text : String) : String :=
  match format with
  | .json => json.document
  | .text => text

/-- The type of an access chain as it is reported. -/
def typeReport (chain : String) (offset : Nat) (type : Ty) (members : Option (List OfferedMember)) :
    Json :=
  .object ([
    ("expression", .str chain),
    ("offset", .nat offset),
    ("display", .str type.text),
    ("type", type.toJson .object)]
    ++ Json.entry? "members" (Json.ofList (OfferedMember.toJson .object)) members)

/-- The labels that were accepted, given with the most recent first. -/
def RecencyTracker.ofRecent (capacity : Nat) (labels : List String) : RecencyTracker :=
  labels.reverse.foldl record (.empty capacity)

/-- What a command answers for its file. A syntax tree is written as JSON in either
format. -/
def Command.answer (settings : Settings) (format : OutputFormat) (colored : Bool)
    (command : Command) (input : Input) : Except RunError String :=
  if command.name ≠ .complete ∧ !input.language.isScript then
    .error (.notScript command.name input.path input.language)
  else
    match command with
    | .tokens _ =>
      let tokens := tokenize input.text
      .ok (format.write (.ofList Token.toJson tokens) (reportTokens colored tokens))
    | .highlight _ =>
      let lines := highlightLines input.text
      .ok (format.write (.ofList (Json.ofList HighlightSpan.toJson) lines)
        (reportHighlight colored lines))
    | .parse _ isExpression =>
      match (if isExpression then parseExpression else parseProgram) input.text with
      | .ok node => .ok (node.toJson .double).document
      | .error fault => .error (.unparsed input.path fault)
    | .scopes _ =>
      let tree := (Document.ofText input.text input.language).tree
      .ok (format.write (tree.toJson .object) (tree.report colored))
    | .type _ cursor chain showsMembers guesses => do
      let d := Document.ofText input.text input.language
      let offset ← cursor.offsetIn d
      let type := d.typeAt (settings.completion.bestGuessTypes && guesses) chain.toList offset
      let members := if showsMembers then some (d.tree.offered type) else none
      return format.write (typeReport chain offset type members)
        (type.report colored (members.getD []))
    | .complete _ cursor choices recent => do
      let options := choices.applyTo settings.completion
      let d := Document.ofText input.text input.language
      let offset ← cursor.offsetIn d
      let result := d.complete options (.ofRecent options.recencyCapacity recent) offset
      return format.write (result.toJson .object) (result.report colored)

/-- The settings that are read where none are asked for. -/
def Settings.usualPath : String := "./caret.json5"

section
variable {m : Type → Type} [Monad m]

/-- The settings in a file. -/
def Settings.load (files : Files m) (path : String) : ExceptT RunError m Settings := do
  match ← files.read? path with
  | none => throw (.unreadableSettings path)
  | some text =>
    match Settings.ofText? text.toList with
    | some settings => return settings
    | none => throw (.invalidSettings path)

/-- The settings of a path, or of the usual file if there is one. -/
def Settings.find (files : Files m) : Option String → ExceptT RunError m Settings
  | some path => Settings.load files path
  | none => do
    if ← files.isFile Settings.usualPath then Settings.load files Settings.usualPath
    else return {}

/-- The file that arguments name; a dash names the standard input. -/
def Input.load (files : Files m) (settings : Settings) (input : InputArguments) :
    ExceptT RunError m Input := do
  let text ← if input.file = "-" then files.standardInput? else files.read? input.file
  match text with
  | some text =>
    return ⟨input.file, text.toList, settings.languageFor input.file input.language⟩
  | none => throw (if input.file = "-" then .unreadableInput else .unreadableFile input.file)

/-- What is printed for arguments. -/
def Arguments.run (files : Files m) (colored : Bool) (arguments : Arguments) :
    ExceptT RunError m String := do
  let settings ← Settings.find files arguments.config
  let input ← Input.load files settings arguments.command.input
  arguments.command.answer settings arguments.format colored input

end

/-- Text is coloured, given whether it is printed to a terminal. -/
def ColorChoice.isColored (choice : ColorChoice) (isTerminal : Bool) : Bool :=
  match choice with
  | .auto => isTerminal
  | .always => true
  | .never => false

end Typeahead
