/-
# Completion items

Key definitions: `CompletionItem`, `CompletionResult`.
-/
import Typeahead.Language
import Typeahead.Types.Display

namespace Typeahead

/-- What a completion item stands for. -/
inductive ItemKind where
  | variable | function | classType | method | parameter | property | keyword | tag
  | attribute | value
  deriving DecidableEq, Repr, Inhabited

namespace ItemKind

/-- The spelling of a kind of item. -/
def name : ItemKind → String
  | .variable => "variable"
  | .function => "function"
  | .classType => "class"
  | .method => "method"
  | .parameter => "parameter"
  | .property => "property"
  | .keyword => "keyword"
  | .tag => "tag"
  | .attribute => "attribute"
  | .value => "value"

/-- The sort text of items that have none of their own. -/
def sortText : ItemKind → String
  | .variable | .function | .parameter | .classType => "10"
  | .property | .method | .tag | .attribute | .value => "11"
  | .keyword => "15"

end ItemKind

/-- An item of a completion. The text that is inserted is the label unless it is given,
and so is the sort text that of the kind. Lower orders come first. -/
structure CompletionItem where
  label : String
  kind : ItemKind
  detail : Option String := none
  ownSortText : Option String := none
  insertText : Option String := none
  type : Option Ty := none
  isUnknown : Bool := false
  order : Nat := 0
  deriving Inhabited

namespace CompletionItem

/-- The text by which an item is sorted. -/
def sortText (item : CompletionItem) : String := item.ownSortText.getD item.kind.sortText

/-- The text that is inserted for an item. -/
def insertedText (item : CompletionItem) : String := item.insertText.getD item.label

/-- An item with a type, which is shown beside it. -/
def withType (item : CompletionItem) (type : Ty) : CompletionItem :=
  { item with detail := some type.text, type := some type }

/-- An item whose insertion calls it. -/
def called (item : CompletionItem) : CompletionItem :=
  { item with insertText := some (item.label ++ "()") }

end CompletionItem

/-- The items offered at a place. `typed` is the part of a word in front of the cursor.
Items are members or names, and where a new name is declared there are none. -/
structure CompletionResult where
  language : Language
  isGlobal : Bool := false
  isMember : Bool := false
  isNewName : Bool := false
  typed : String
  entries : List CompletionItem := []
  deriving Inhabited

end Typeahead
