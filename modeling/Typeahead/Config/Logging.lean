/-
# Log settings

Which events are logged and how they are written, as environment variables tell.

Key definitions: `LogFormat`, `LogSettings.ofVariables?`.
-/
import Typeahead.Text.Blank
import Typeahead.Text.LetterCase

namespace Typeahead

/-- How logged events are written. -/
inductive LogFormat where
  | text | tree | json
  deriving DecidableEq, Repr, Inhabited

/-- The format of a name. Blanks around it and the case of its letters do not count, and
a name that is not known stands for plain text. -/
def LogFormat.ofName (name : String) : LogFormat :=
  match String.ofList ((Text.trim name.toList).flatMap Text.lowerCase) with
  | "tree" => .tree
  | "json" => .json
  | _ => .text

/-- The events that are logged, as filter directives, and their format. -/
structure LogSettings where
  directives : String
  format : LogFormat
  deriving DecidableEq, Repr, Inhabited

/-- The settings that variables tell, if any asks for a log. -/
def LogSettings.ofVariables? (valueOf : String → Option String) : Option LogSettings :=
  (valueOf "CARET_LOG" <|> valueOf "RUST_LOG").map fun directives =>
    ⟨directives, ((valueOf "CARET_LOG_FORMAT").map LogFormat.ofName).getD .text⟩

end Typeahead
