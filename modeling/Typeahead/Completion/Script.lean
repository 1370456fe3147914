/-
# What is offered in a script

After a dot the members of what comes before it are offered, and elsewhere the
visible names, the built-in names and the keywords. Nothing is offered in strings,
comments and numbers, nor where a new name is declared.

Key definitions: `Completion.isSuppressed`, `Completion.declaresName`,
`Completion.inScript`.
-/
import Typeahead.Completion.Item
import Typeahead.Completion.Options
import Typeahead.Document
import Typeahead.Inference.Extract
import Typeahead.Token.Scan

namespace Typeahead.Completion

/-- The tokens that start before an offset, comments among them. -/
def tokensBefore (text : List Char) (offset : Nat) : List Token :=
  (tokenizeWithComments text).takeWhile fun t => t.kind != .endOfInput && t.start < offset

/-- An offset behind the start of a token lies in it, or just behind it where it goes
on: an open string or comment, a comment up to the end of its line, a number. -/
def coversOffset (t : Token) (offset : Nat) : Bool :=
  match t.kind with
  | .string | .template => offset < t.stop || (offset == t.stop && t.unterminated)
  | .comment =>
    offset < t.stop
      || (offset == t.stop && ("//".toList.isPrefixOf t.text.toList || t.unterminated))
  | .number => offset == t.stop
  | _ => false

/-- The offset lies in a string, a comment or a number. -/
def isSuppressed (text : List Char) (offset : Nat) : Bool :=
  (tokensBefore text offset).getLast?.any fun t => coversOffset t offset

/-- The word at an offset names a new variable, function or class. -/
def declaresName (text : List Char) (start : Nat) : Bool :=
  let introduces (kind : TokenKind) : Bool :=
    match kind with
    | .keyword word => word ∈ [.varWord, .letWord, .constWord, .functionWord, .classWord]
    | _ => false
  match (tokensBefore text start).reverse.find? (·.kind != .comment) with
  | some t => introduces t.kind
  | none => false

/-- The kind of the item of a symbol. -/
def kindOfSymbol : SymbolKind → ItemKind
  | .variable | .constant => .variable
  | .function => .function
  | .classType => .classType
  | .parameter => .parameter
  | .property => .property
  | .method => .method

/-- The item of a visible name. -/
def symbolItem (symbol : Symbol) : CompletionItem :=
  let kind := kindOfSymbol symbol.kind
  let item : CompletionItem :=
    { label := symbol.name, kind := kind, ownSortText := some "10", order := 0 }
  let typed := item.withType symbol.typeOrUnknown
  if kind = .function then typed.called else typed

/-- The kind of the item of a built-in name. -/
def kindOfGlobal (g : BuiltIn) : ItemKind :=
  if g.kind = .method then .function
  else if "Constructor".toList.isSuffixOf g.spelling.toList then .classType
  else .variable

/-- The item of a built-in name. -/
def globalItem (g : BuiltIn) : CompletionItem :=
  let item : CompletionItem :=
    { label := g.name, kind := kindOfGlobal g, ownSortText := some "15", order := 20 }
  let typed := item.withType ((Catalog.globalType? g.name).getD .unknown)
  if g.kind = .method then typed.called else typed

/-- The item of a keyword. -/
def keywordItem (word : String) : CompletionItem :=
  { label := word, kind := .keyword, ownSortText := some "15", order := 30 }

/-- The item of a member. -/
def memberItem (offered : OfferedMember) : CompletionItem :=
  let kind : ItemKind := if offered.member.kind = .method then .method else .property
  let item : CompletionItem :=
    { label := offered.label, kind := kind, ownSortText := some "11",
      isUnknown := offered.isUnknown, order := offered.order }
  let typed := item.withType offered.member.type
  if kind = .method then typed.called else typed

/-- The items whose label is not among those of others. -/
def unlisted (listed items : List CompletionItem) : List CompletionItem :=
  items.filter fun item => !listed.any (·.label == item.label)

/-- The names offered at an offset: the visible ones, and then those built-in names and
keywords that are not hidden. -/
def namesAt (options : CompletionOptions) (d : Document) (offset : Nat) : List CompletionItem :=
  let visible := (d.tree.visible (d.tree.scopeAt ScopeTree.root offset)).map symbolItem
  let globals := if options.includeGlobals then Catalog.globals.map globalItem else []
  let known := visible ++ unlisted visible globals
  let keywords := if options.includeKeywords then d.language.keywords.map keywordItem else []
  known ++ unlisted known keywords

/-- The members offered after the dot that ends at `dotEnd`. -/
def membersAt (options : CompletionOptions) (d : Document) (dotEnd offset : Nat) :
    List CompletionItem :=
  (d.membersAt options.bestGuessTypes (expressionBefore d.text dotEnd) offset).map memberItem

/-- A text ends with a dot, but not with three. -/
def endsWithDot (text : List Char) : Bool :=
  match text.reverse with
  | '.' :: '.' :: '.' :: _ => false
  | '.' :: _ => true
  | _ => false

/-- What is offered at an offset of a script, where a word starts at `start`. -/
def inScript (options : CompletionOptions) (d : Document) (start offset : Nat) (typed : String) :
    CompletionResult :=
  let result : CompletionResult := { language := d.language, typed := typed }
  if isSuppressed d.text offset then result
  else if declaresName d.text start then { result with isNewName := true }
  else if endsWithDot (Text.takeUnits start d.text) then
    { result with isMember := true, entries := membersAt options d start offset }
  else { result with isGlobal := true, entries := namesAt options d offset }

end Typeahead.Completion
