/-
# Languages

The languages that are completed. A language has an identifier, and is also known by
its usual file extensions.

Key definitions: `Language`, `Language.ofId?`, `Language.keywords`.
-/
import Typeahead.Text.Blank

namespace Typeahead

/-- A language. -/
inductive Language where
  | javascript | typescript | html | css
  deriving DecidableEq, Repr, Inhabited

namespace Language

/-- The identifier of a language. -/
def id : Language → String
  | .javascript => "javascript"
  | .typescript => "typescript"
  | .html => "html"
  | .css => "css"

/-- The language of an identifier or file extension. Blanks around it do not count, nor
does the case of its letters. -/
def ofId? (id : String) : Option Language :=
  match String.ofList ((Text.trim id.toList).map Char.toLower) with
  | "javascript" | "js" | "jsx" | "mjs" | "cjs" => some .javascript
  | "typescript" | "ts" | "tsx" => some .typescript
  | "html" | "htm" => some .html
  | "css" => some .css
  | _ => none

/-- What is said of an identifier that is not known. -/
def unknownMessage (id : String) : String := "unknown language '" ++ id ++ "'"

/-- The language is that of scripts, which have names and types. -/
def isScript : Language → Bool
  | .javascript | .typescript => true
  | .html | .css => false

/-- The keywords of JavaScript. -/
def javascriptKeywords : List String :=
  ["async", "await", "break", "case", "catch", "class", "const", "continue", "debugger",
   "default", "delete", "do", "else", "export", "extends", "false", "finally", "for",
   "function", "if", "import", "in", "instanceof", "let", "new", "null", "of", "return",
   "static", "super", "switch", "this", "throw", "true", "try", "typeof", "var", "void",
   "while", "with", "yield"]

/-- The keywords of JavaScript and the words of the types of TypeScript. -/
def typescriptKeywords : List String :=
  ["abstract", "any", "as", "async", "await", "bigint", "boolean", "break", "case", "catch",
   "class", "const", "continue", "debugger", "declare", "default", "delete", "do", "else",
   "enum", "export", "extends", "false", "finally", "for", "function", "if", "implements",
   "import", "in", "instanceof", "interface", "keyof", "let", "namespace", "never", "new",
   "null", "number", "of", "private", "protected", "public", "readonly", "return", "static",
   "string", "super", "switch", "this", "throw", "true", "try", "type", "typeof", "unknown",
   "var", "void", "while", "yield"]

/-- The keywords of a language. -/
def keywords : Language → List String
  | .javascript => javascriptKeywords
  | .typescript => typescriptKeywords
  | .html | .css => []

end Language
end Typeahead
