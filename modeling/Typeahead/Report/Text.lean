/-
# Results as text

What is printed of tokens, highlighted lines, scopes, types and completions, one a
line. Some parts stand out by colour if that is wanted; a column is as wide as what is
printed, the codes of colours counted in.

Key definitions: `Emphasis.paint`, `Token.line`, `HighlightSpan.text`,
`ScopeTree.report`, `Ty.report`, `CompletionResult.report`.
-/
import Typeahead.Completion.Item
import Typeahead.Inference.Offered
import Typeahead.Scope.Tree
import Typeahead.Token.Highlight
import Typeahead.Types.Display

namespace Typeahead

/-- How a part of a line stands out. -/
inductive Emphasis where
  | dim | bold | cyan
  deriving DecidableEq, Repr, Inhabited

namespace Emphasis

/-- The code that ends an emphasis. -/
def reset : List Char := "\x1b[0m".toList

/-- The code that starts an emphasis. -/
def start : Emphasis → List Char
  | dim => "\x1b[2m".toList
  | bold => "\x1b[1m".toList
  | cyan => "\x1b[36m".toList

/-- A text in which every code that ends an emphasis is followed by one that starts it
again. -/
def renewed (code : List Char) : List Char → List Char
  | '\x1b' :: '[' :: '0' :: 'm' :: text => reset ++ code ++ renewed code text
  | c :: text => c :: renewed code text
  | [] => []

/-- A text that stands out if it is to be coloured. -/
def paint (emphasis : Emphasis) (colored : Bool) (text : String) : String :=
  if colored then .ofList (emphasis.start ++ renewed emphasis.start text.toList ++ reset) else text

end Emphasis

/-- A text with blanks in front of it up to a width. -/
def padStart (width : Nat) (text : String) : String := .ofList (text.toList.leftpad width ' ')

/-- A text with blanks behind it up to a width. -/
def padEnd (width : Nat) (text : String) : String := .ofList (text.toList.rightpad width ' ')

/-- Lines, each of which ends in a line feed. -/
def joinLines (lines : List String) : String := String.join (lines.map (· ++ "\n"))

section
variable (colored : Bool)

/-- The line of a token. -/
def Token.line (t : Token) : String :=
  padStart 9 (Emphasis.dim.paint colored s!"{t.start}..{t.stop}") ++ "  "
    ++ padEnd 24 t.kind.describe ++ " " ++ t.text

/-- The tokens of a script. -/
def reportTokens (tokens : List Token) : String := joinLines (tokens.map (Token.line colored))

/-- A highlighted span. -/
def HighlightSpan.text (s : HighlightSpan) : String :=
  s.category.name ++ s!"[{s.start}..{s.stop}]"

/-- Highlighted lines, numbered from 1. -/
def reportHighlight (lines : List (List HighlightSpan)) : String :=
  joinLines <| lines.zipIdx.map fun (spans, index) =>
    padStart 4 (Emphasis.dim.paint colored (toString (index + 1))) ++ "  "
      ++ " ".intercalate (spans.map HighlightSpan.text)

/-- A spelling with a capital in front. -/
def capitalized (name : String) : String :=
  match name.toList with
  | c :: rest => .ofList (c.toUpper :: rest)
  | [] => ""

/-- A name with what it is and a type. -/
def nameLine (name kind type : String) : String :=
  Emphasis.cyan.paint colored name ++ " " ++ capitalized kind ++ ": " ++ type

/-- What is said of a scope before its symbols. -/
def Scope.heading (scope : Scope) : String :=
  capitalized scope.kind.name ++ s!" [{scope.start}, {scope.stop})"
    ++ ((scope.classSymbol.map fun symbol => " class " ++ symbol.name).getD "")
    ++ ((scope.functionSymbol.map fun symbol => " fn " ++ symbol.name).getD "")

/-- The lines of a scope and the scopes in it, `levels` deep. -/
def ScopeTree.scopeLines (tree : ScopeTree) : (levels : Nat) → (indent : Nat) → ScopeId → List String
  | 0, _, _ => []
  | levels + 1, indent, id =>
    match tree.get? id with
    | none => []
    | some scope =>
      let margin := String.ofList (List.replicate (2 * indent) ' ')
      (margin ++ Emphasis.bold.paint colored scope.heading)
        :: scope.symbols.values.map (fun symbol =>
            margin ++ "  "
              ++ nameLine colored symbol.name symbol.kind.name symbol.typeOrUnknown.text)
        ++ scope.children.flatMap (tree.scopeLines levels (indent + 1))

/-- The scopes of a script. A scope is deeper in the tree than the one it is in, so there
are no more levels than scopes. -/
def ScopeTree.report (tree : ScopeTree) : String :=
  joinLines (tree.scopeLines colored tree.size 0 ScopeTree.root)

/-- What is put after a member or item of unknown type. -/
def unknownMark (isUnknown : Bool) : String := if isUnknown then " ?" else ""

/-- The line of an offered member. -/
def OfferedMember.line (offered : OfferedMember) : String :=
  "  " ++ nameLine colored offered.label offered.member.kind.name offered.member.type.text
    ++ unknownMark offered.isUnknown

/-- A type and what it offers. -/
def Ty.report (type : Ty) (members : List OfferedMember) : String :=
  joinLines (type.text :: members.map (OfferedMember.line colored))

/-- The line of an item. What is inserted is shown where it is not the label. -/
def CompletionItem.line (item : CompletionItem) : String :=
  padEnd 10 item.kind.name ++ " " ++ Emphasis.cyan.paint colored item.label
    ++ ((item.detail.map fun detail => ": " ++ detail).getD "")
    ++ (((item.insertText.filter (· ≠ item.label)).map fun text =>
        "  => " ++ Emphasis.dim.paint colored text).getD "")
    ++ unknownMark item.isUnknown

/-- What is completed. -/
def CompletionResult.context (result : CompletionResult) : String :=
  if result.isMember then "member"
  else if result.isNewName then "new identifier"
  else if result.isGlobal then "global"
  else "none"

/-- A result and its items. -/
def CompletionResult.report (result : CompletionResult) : String :=
  let heading := result.language.id ++ " " ++ result.context ++ " completion, prefix '"
    ++ result.typed ++ s!"', {result.entries.length} entries"
  joinLines (Emphasis.dim.paint colored heading
    :: result.entries.map (CompletionItem.line colored))

end

end Typeahead
