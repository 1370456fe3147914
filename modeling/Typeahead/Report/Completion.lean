/-
# Reported completions

Key definitions: `CompletionItem.toJson`, `CompletionResult.toJson`,
`OfferedMember.toJson`.
-/
import Typeahead.Completion.Item
import Typeahead.Inference.Offered
import Typeahead.Report.Types

namespace Typeahead

/-- An entry of an object that is left out if there is no value. -/
def Json.entry? {α : Type} (name : String) (encode : α → Json) : Option α → List (String × Json)
  | some a => [(name, encode a)]
  | none => []

/-- An item, without the parts that it has not. -/
def CompletionItem.toJson (style : EntryStyle) (item : CompletionItem) : Json :=
  .object (
    [("label", .str item.label), ("kind", .str item.kind.name)]
    ++ Json.entry? "detail" .str item.detail
    ++ Json.entry? "sortText" .str item.ownSortText
    ++ Json.entry? "insertText" .str item.insertText
    ++ Json.entry? "typeInfo" (Ty.toJson style) item.type
    ++ [("isUnknown", .bool item.isUnknown), ("sortOrder", .nat item.order)])

/-- A result with its items. -/
def CompletionResult.toJson (style : EntryStyle) (result : CompletionResult) : Json :=
  .object [
    ("language", .str result.language.id),
    ("isGlobalCompletion", .bool result.isGlobal),
    ("isMemberCompletion", .bool result.isMember),
    ("isNewIdentifierLocation", .bool result.isNewName),
    ("prefix", .str result.typed),
    ("entries", .ofList (CompletionItem.toJson style) result.entries)]

/-- An offered member. -/
def OfferedMember.toJson (style : EntryStyle) (offered : OfferedMember) : Json :=
  .object [
    ("label", .str offered.label),
    ("kind", .str offered.member.kind.name),
    ("typeInfo", offered.member.type.toJson style),
    ("isUnknown", .bool offered.isUnknown),
    ("sortOrder", .nat offered.order)]

end Typeahead
