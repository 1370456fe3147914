/-
# Given values

The values that a command line has given so far, each read as what its parameter
wants, and the arguments they make up for a command.

Key definitions: `Given`, `Given.give`, `Given.command`.
-/
import Typeahead.CommandLine.Arguments
import Typeahead.Number.Numeral

namespace Typeahead

/-- A decimal integer after a sign, if there is one. -/
def decimalInteger? (text : List Char) : Option Int :=
  let (negative, digits) := match text with
    | '-' :: digits => (true, digits)
    | '+' :: digits => (false, digits)
    | digits => (false, digits)
  if digits.isEmpty || !digits.all Char.isDigit then none
  else (digitsValue? 10 0 digits).map fun value => if negative then -(value : Int) else value

/-- A natural number below a bound; it may be written with a sign. -/
def boundedNatural? (bound : Nat) (text : List Char) : Option Nat := do
  let value ← decimalInteger? text
  if 0 ≤ value ∧ value < bound then some value.toNat else none

/-- A count, which is written without a minus sign. -/
def count? (text : List Char) : Option Nat :=
  if text.head? = some '-' then none else boundedNatural? 0x10000000000000000 text

/-- A format by its name. -/
def OutputFormat.ofName? : String → Option OutputFormat
  | "text" => some .text
  | "json" => some .json
  | _ => none

/-- A choice of colour by its name. -/
def ColorChoice.ofName? : String → Option ColorChoice
  | "auto" => some .auto
  | "always" => some .always
  | "never" => some .never
  | _ => none

/-- The values given so far, and the parameters they were given for. -/
structure Given where
  parameters : List Parameter := []
  file : Option String := none
  config : Option String := none
  format : Option OutputFormat := none
  color : Option ColorChoice := none
  language : Option Language := none
  chain : Option String := none
  line : Option Nat := none
  column : Option Nat := none
  offset : Option Nat := none
  maxResults : Option Nat := none
  recent : List String := []
  deriving DecidableEq, Repr, Inhabited

namespace Given

/-- The parameter was given. -/
def has (g : Given) (p : Parameter) : Bool := p ∈ g.parameters

/-- The values with the parameter marked as given, unless it may not be given again. -/
def mark (g : Given) (p : Parameter) : Except UsageError Given :=
  if g.has p && !p.isRepeatable then .error (.conflict p p)
  else .ok { g with parameters := p :: g.parameters }

/-- A flag is given. -/
def giveFlag (g : Given) : Parameter → Except UsageError Given
  | .help => .error .helpWanted
  | .version => .error .versionWanted
  | p => g.mark p

/-- The values with one more. A path is not empty; the labels of `--recent` are separated
by commas. -/
def give (g : Given) (p : Parameter) (value : String) : Except UsageError Given := do
  let g ← g.mark p
  let path : Except UsageError String :=
    if value.isEmpty then .error (.invalidValue p (some value)) else .ok value
  let known {α : Type} : Option α → Except UsageError (Option α)
    | some a => .ok (some a)
    | none => .error (.invalidValue p (some value))
  let read {α : Type} : Option α → Except UsageError (Option α)
    | some a => .ok (some a)
    | none => .error (.unreadableValue p value)
  let word : Option Nat := boundedNatural? 0x100000000 value.toList
  match p with
  | .file => return { g with file := some (← path) }
  | .config => return { g with config := some (← path) }
  | .format => return { g with format := ← known (OutputFormat.ofName? value) }
  | .color => return { g with color := ← known (ColorChoice.ofName? value) }
  | .language => return { g with language := ← read (Language.ofId? value) }
  | .chain => return { g with chain := some value }
  | .line => return { g with line := ← read word }
  | .column => return { g with column := ← read word }
  | .offset => return { g with offset := ← read word }
  | .maxResults => return { g with maxResults := ← read (count? value.toList) }
  | .recent => return { g with recent := g.recent ++ (value.toList.splitOn ',').map .ofList }
  | _ => return g

/-- A value that has to be there. -/
def required {α : Type} (p : Parameter) : Option α → Except UsageError α
  | some a => .ok a
  | none => .error (.missing p)

/-- The cursor. A line wants a column and a column a line, unless there is an offset,
which excludes a line. -/
def cursor (g : Given) : Except UsageError Cursor :=
  match g.offset, g.line, g.column with
  | some _, some _, _ => .error (.conflict .line .offset)
  | some offset, none, _ => .ok (.atOffset offset)
  | none, some line, some column => .ok (.atPosition ⟨line, column⟩)
  | none, some _, none => .error (.missing .column)
  | none, none, some _ => .error (.missing .line)
  | none, none, none => .ok .atEnd

/-- The command that the values make up. Parameters that exclude each other count before
those that are missing. -/
def command (g : Given) (name : CommandName) : Except UsageError Command := do
  if g.has .line && g.has .offset then .error (.conflict .line .offset)
  let input : InputArguments := ⟨← required .file g.file, g.language⟩
  match name with
  | .tokens => return .tokens input
  | .highlight => return .highlight input
  | .parse => return .parse input (g.has .expression)
  | .scopes => return .scopes input
  | .type =>
    return .type input (← g.cursor) (← required .chain g.chain) (g.has .members)
      (!g.has .noBestGuess)
  | .complete =>
    return .complete input (← g.cursor)
      { maxResults := g.maxResults
        caseSensitive := g.has .caseSensitive
        noCamelCase := g.has .noCamelCase
        noKeywords := g.has .noKeywords
        noGlobals := g.has .noGlobals
        noBestGuess := g.has .noBestGuess }
      g.recent

end Given
end Typeahead
