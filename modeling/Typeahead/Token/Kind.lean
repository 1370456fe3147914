/-
# Kinds of tokens

A word of a script is a keyword with a role of its own, another reserved word, or
an identifier. Every token has a kind; kinds fall into the categories that a
highlighter colours.

Key definitions: `Keyword`, `TokenKind`, `TokenKind.ofWord`, `TokenKind.describe`,
`TokenCategory`.
-/
import Typeahead.Token.Punctuator

namespace Typeahead

/-- A word with a role of its own in the grammar. -/
inductive Keyword where
  | thisWord | newWord | typeofWord | instanceofWord | inWord | ofWord | classWord
  | extendsWord | staticWord | getWord | setWord | asyncWord | functionWord | returnWord
  | constructorWord | varWord | letWord | constWord
  deriving DecidableEq, Repr, Inhabited

namespace Keyword

/-- The spelling of a keyword. -/
def text : Keyword → String
  | .thisWord => "this"
  | .newWord => "new"
  | .typeofWord => "typeof"
  | .instanceofWord => "instanceof"
  | .inWord => "in"
  | .ofWord => "of"
  | .classWord => "class"
  | .extendsWord => "extends"
  | .staticWord => "static"
  | .getWord => "get"
  | .setWord => "set"
  | .asyncWord => "async"
  | .functionWord => "function"
  | .returnWord => "return"
  | .constructorWord => "constructor"
  | .varWord => "var"
  | .letWord => "let"
  | .constWord => "const"

/-- The name under which a keyword is reported. -/
def name : Keyword → String
  | .thisWord => "ThisKeyword"
  | .newWord => "NewKeyword"
  | .typeofWord => "TypeofKeyword"
  | .instanceofWord => "InstanceofKeyword"
  | .inWord => "InKeyword"
  | .ofWord => "OfKeyword"
  | .classWord => "ClassKeyword"
  | .extendsWord => "ExtendsKeyword"
  | .staticWord => "StaticKeyword"
  | .getWord => "GetKeyword"
  | .setWord => "SetKeyword"
  | .asyncWord => "AsyncKeyword"
  | .functionWord => "FunctionKeyword"
  | .returnWord => "ReturnKeyword"
  | .constructorWord => "ConstructorKeyword"
  | .varWord => "VarKeyword"
  | .letWord => "LetKeyword"
  | .constWord => "ConstKeyword"

/-- Every keyword. -/
def all : List Keyword := [
  .thisWord, .newWord, .typeofWord, .instanceofWord, .inWord, .ofWord, .classWord,
  .extendsWord, .staticWord, .getWord, .setWord, .asyncWord, .functionWord, .returnWord,
  .constructorWord, .varWord, .letWord, .constWord]

/-- A keyword that may also name a binding. -/
def isContextual : Keyword → Bool
  | .ofWord | .getWord | .setWord | .staticWord | .asyncWord | .constructorWord | .letWord => true
  | _ => false

end Keyword

/-- The reserved words without a kind of their own. -/
def reservedWords : List String := [
  "await", "break", "case", "catch", "continue", "debugger", "default", "delete", "do", "else",
  "enum", "export", "false", "finally", "for", "if", "implements", "import", "interface",
  "null", "package", "private", "protected", "public", "super", "switch", "throw", "true",
  "try", "void", "while", "with", "yield"]

/-- The kind of a token. Comments are tokens only where they are kept. -/
inductive TokenKind where
  | unknown | endOfInput | comment | identifier | reserved | string | template | number
  | keyword (word : Keyword)
  | punct (mark : Punctuator)
  deriving DecidableEq, Repr, Inhabited

/-- What a highlighter makes of a token. -/
inductive TokenCategory where
  | invalid | trivia | number | string | punctuation | operator | keyword | identifier
  deriving DecidableEq, Repr, Inhabited

/-- The name under which a category is reported. -/
def TokenCategory.name : TokenCategory → String
  | .invalid => "Invalid"
  | .trivia => "Trivia"
  | .number => "Number"
  | .string => "String"
  | .punctuation => "Punctuation"
  | .operator => "Operator"
  | .keyword => "Keyword"
  | .identifier => "Identifier"

namespace TokenKind

/-- The kind of a word that is not an ordinary identifier. -/
def keyword? (word : String) : Option TokenKind :=
  match Keyword.all.find? (·.text == word) with
  | some k => some (.keyword k)
  | none => if reservedWords.contains word then some .reserved else none

/-- The kind of a word. -/
def ofWord (word : String) : TokenKind := (keyword? word).getD .identifier

/-- A keyword with a kind of its own. -/
def isKeyword : TokenKind → Bool
  | .keyword _ => true
  | _ => false

/-- An identifier or any keyword. -/
def isWord : TokenKind → Bool
  | .identifier | .reserved | .keyword _ => true
  | _ => false

/-- A keyword that may also name a binding. -/
def isContextualKeyword : TokenKind → Bool
  | .keyword k => k.isContextual
  | _ => false

/-- A word that may name a binding. -/
def isBindingName (kind : TokenKind) : Bool := kind == .identifier || kind.isContextualKeyword

/-- An operator that stores a value. -/
def isAssignment : TokenKind → Bool
  | .punct p => p.isAssignment
  | _ => false

/-- The punctuator of this kind. -/
def punctuator? : TokenKind → Option Punctuator
  | .punct p => some p
  | _ => none

/-- The category of a kind. -/
def category : TokenKind → TokenCategory
  | .unknown | .endOfInput => .invalid
  | .comment => .trivia
  | .identifier => .identifier
  | .string | .template => .string
  | .number => .number
  | .reserved | .keyword _ => .keyword
  | .punct p => if p.isDelimiter then .punctuation else .operator

/-- The name under which a kind is reported. -/
def name : TokenKind → String
  | .unknown => "Unknown"
  | .endOfInput => "EndOfFileToken"
  | .comment => "Comment"
  | .identifier => "Identifier"
  | .reserved => "Keyword"
  | .string => "StringLiteral"
  | .template => "TemplateLiteral"
  | .number => "NumericLiteral"
  | .keyword k => k.name
  | .punct p => p.name

/-- How an error message speaks of a kind. -/
def describe : TokenKind → String
  | .unknown => "unknown character"
  | .endOfInput => "end of input"
  | .comment => "comment"
  | .identifier => "identifier"
  | .reserved => "keyword"
  | .string => "string literal"
  | .template => "template literal"
  | .number => "numeric literal"
  | .keyword k => "'" ++ k.text ++ "'"
  | .punct p => "'" ++ p.text ++ "'"

end TokenKind
end Typeahead
