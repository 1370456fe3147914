/-
# Reading a command line

Words are read from left to right. An option with its value in the next word waits
for it, and a value is looked at only when the next option or file is read, or at the
end. So a word that is out of place is found before a value in front of it that does
not read. After `--` every word is taken as it stands.

The options before the name of a command are settled after the command has been read;
what is given twice, before and after the name, counts as given after it.

Key definitions: `CommandReading`, `CommandReading.step`, `Arguments.ofWords`.
-/
import Typeahead.CommandLine.Given

namespace Typeahead

/-- What a word of a command line looks like. -/
inductive ArgumentWord where
  /-- Two dashes alone. -/
  | dashes
  /-- A word after two dashes, with the value behind an equals sign if there is one. -/
  | long (name : String) (value : Option String)
  /-- Letters after one dash. -/
  | short (letters : List Char)
  | plain
  deriving DecidableEq, Repr, Inhabited

/-- What a word looks like. -/
def ArgumentWord.ofText (word : String) : ArgumentWord :=
  match word.toList with
  | ['-', '-'] => .dashes
  | '-' :: '-' :: text =>
    let name := text.takeWhile (· ≠ '=')
    let value := if name.length < text.length then some (text.drop (name.length + 1)) else none
    .long (.ofList name) (value.map .ofList)
  | '-' :: c :: letters => .short (c :: letters)
  | _ => .plain

/-- A parameter whose value has not been looked at. -/
structure PendingValue where
  parameter : Parameter
  value : Option String
  deriving DecidableEq, Repr, Inhabited

/-- A part of a command line that has been read: before the name of the command, or after
it. -/
structure CommandReading where
  /-- The command whose part it is. -/
  command : Option CommandName
  given : Given := {}
  pending : Option PendingValue := none
  /-- Every word that follows is taken as it stands. -/
  verbatim : Bool := false
  /-- The file was read. -/
  hasFile : Bool := false
  deriving Repr, Inhabited

namespace CommandReading

/-- The parameters that may be given here. -/
def parameters (r : CommandReading) : List Parameter :=
  match r.command with
  | some c => c.parameters
  | none => Parameter.leading

/-- An option waits for its value. -/
def awaitsValue (r : CommandReading) : Bool :=
  r.pending.any (·.value.isNone)

/-- The pending value is looked at. -/
def settle (r : CommandReading) : Except UsageError CommandReading :=
  match r.pending with
  | none => .ok r
  | some ⟨p, none⟩ => .error (.invalidValue p none)
  | some ⟨p, some value⟩ => do return { r with given := ← r.given.give p value, pending := none }

/-- A flag is read. -/
def readFlag (r : CommandReading) (p : Parameter) : Except UsageError CommandReading := do
  let r ← r.settle
  return { r with given := ← r.given.giveFlag p }

/-- An option is read, with the value in the same word if there is one. -/
def readOption (r : CommandReading) (p : Parameter) (value : Option String) :
    Except UsageError CommandReading := do
  let r ← r.settle
  match value with
  | some value => return { r with given := ← r.given.give p value }
  | none => return { r with pending := some ⟨p, none⟩ }

/-- A word after two dashes is read. -/
def readLong (r : CommandReading) (name : String) (value : Option String) :
    Except UsageError CommandReading :=
  match r.parameters.find? (·.word? == some name), value with
  | none, _ => .error (.unknownArgument ("--" ++ name))
  | some p, value =>
    if p.takesValue then r.readOption p value
    else match value with
      | none => r.readFlag p
      | some value => .error (.unwantedValue p value)

/-- The value that letters after an option write; an equals sign may go before it. -/
def attached? : List Char → Option String
  | [] => none
  | '=' :: value => some (.ofList value)
  | value => some (.ofList value)

/-- Letters after one dash are read. What follows the letter of an option is its value. -/
def readShort (r : CommandReading) : List Char → Except UsageError CommandReading
  | [] => .ok r
  | c :: letters =>
    match r.parameters.find? (·.letter? == some c) with
    | none => .error (.unknownArgument (.ofList ['-', c]))
    | some p =>
      if p.takesValue then r.readOption p (attached? letters)
      else do readShort (← r.readFlag p) letters

/-- A word that no option takes is read: it is the file of a command, once. -/
def readPlain (r : CommandReading) (word : String) : Except UsageError CommandReading :=
  if r.command.isSome && !r.hasFile then do
    let r ← r.settle
    return { r with pending := some ⟨.file, some word⟩, hasFile := true }
  else if r.command.isSome then .error (.unknownArgument word)
  else if r.verbatim && (word = "help" || (CommandName.ofText? word).isSome) then
    .error (.unknownArgument word)
  else .error (.unknownCommand word)

/-- A word is read. -/
def step (r : CommandReading) (word : String) : Except UsageError CommandReading :=
  if r.verbatim then r.readPlain word
  else match ArgumentWord.ofText word with
    | .dashes => .ok { r with verbatim := true }
    | .long name value => r.readLong name value
    | .short letters => r.readShort letters
    | .plain =>
      match r.pending with
      | some ⟨p, none⟩ => .ok { r with pending := some ⟨p, some word⟩ }
      | _ => r.readPlain word

/-- Words after the name of a command are read. -/
def readWords (c : CommandName) (words : List String) : Except UsageError Given := do
  return (← (← words.foldlM step { command := some c }).settle).given

end CommandReading

/-- What help is asked for after the word `help`: that of the program, or of a command. -/
def helpOn : List String → UsageError
  | [] => .helpWanted
  | word :: words =>
    if word = "help" || (CommandName.ofText? word).isSome then
      match words with
      | [] => .helpWanted
      | word :: _ => .unknownCommand word
    else .unknownCommand word

namespace Arguments

/-- The arguments that values given before and after the name of a command make up. -/
def ofGiven (outer inner : Given) (command : Command) : Arguments :=
  { config := inner.config <|> outer.config
    format := (inner.format <|> outer.format).getD .text
    color := (inner.color <|> outer.color).getD .auto
    command }

/-- The arguments that the rest of a command line makes up. -/
def readFrom (r : CommandReading) : List String → Except UsageError Arguments
  | [] => do
    let r ← r.settle
    .error (if r.given.parameters.isEmpty then .nothingWanted else .missingCommand)
  | word :: words => do
    if r.verbatim || r.awaitsValue then readFrom (← r.step word) words
    else match CommandName.ofText? word with
      | some name =>
        let inner ← CommandReading.readWords name words
        let command ← inner.command name
        let outer ← r.settle
        return ofGiven outer.given inner command
      | none =>
        if word = "help" then .error (helpOn words)
        else readFrom (← r.step word) words

/-- What a command line asks for. -/
def ofWords (words : List String) : Except UsageError Arguments := readFrom { command := none } words

end Arguments
end Typeahead
