/-
# The text of a type

Key definition: `Ty.text`.
-/
import Typeahead.Types.Basic

namespace Typeahead

mutual
/-- A type as it is shown: `Array<T>` for arrays, the name of a built-in object or of
a class, the keys of an object between braces, and `(a, b) => T` for functions. -/
def Ty.text : Ty → String
  | .primitive kind => kind.name
  | .array element => "Array<" ++ element.text ++ ">"
  | .object (some name) _ => name
  | .object none (some []) => "\x7b\x7d"
  | .object none (some (entry :: entries)) =>
    "\x7b " ++ ", ".intercalate (Ty.entryTexts (entry :: entries)) ++ " \x7d"
  | .object none none => "object"
  | .class ⟨name, _, _, .instanceSide⟩ => name
  | .class ⟨name, _, _, .constructorSide⟩ => "typeof " ++ name
  | .function _ params result => "(" ++ ", ".intercalate params ++ ") => " ++ result.text
  | .unknown => "unknown"

/-- The keys of an object, each with the text of its type. -/
def Ty.entryTexts : List (String × Ty) → List String
  | [] => []
  | (key, type) :: entries => (key ++ ": " ++ type.text) :: Ty.entryTexts entries
end

end Typeahead
