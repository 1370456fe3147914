/-
# Reported types

A type is reported by its kind and parts. How the keys of an object are written is
left to the report: as an object, or as pairs where their order matters.

Key definitions: `Ty.toJson`, `Member.toJson`, `EntryStyle`.
-/
import Typeahead.Report.Json
import Typeahead.Types.Display
import Typeahead.Types.Member

namespace Typeahead

/-- How named values are written. -/
inductive EntryStyle where
  | object | pairs
  deriving DecidableEq, Repr

/-- Named values in a style. -/
def EntryStyle.toJson (style : EntryStyle) (entries : List (String × Json)) : Json :=
  match style with
  | .object => .object entries
  | .pairs => .ofList (fun entry => .array [.str entry.1, entry.2]) entries

/-- An optional text. -/
def Json.ofText? (text : Option String) : Json := .ofOption .str text

mutual
/-- A type as it is reported. -/
def Ty.toJson (style : EntryStyle) : Ty → Json
  | .primitive kind => .object [("kind", .str "primitive"), ("primitive", .str kind.name)]
  | .array element => .object [("kind", .str "array"), ("element", element.toJson style)]
  | .object name none =>
    .object [("kind", .str "object"), ("name", .ofText? name), ("shape", .null)]
  | .object name (some entries) =>
    .object [("kind", .str "object"), ("name", .ofText? name),
      ("shape", style.toJson (Ty.entriesToJson style entries))]
  | .class ⟨name, members, parent, side⟩ =>
    .object [("kind", .str "class"), ("name", .str name),
      ("members", .array (Ty.membersToJson style members)), ("parent", .ofText? parent),
      ("side", .str side.name)]
  | .function name params result =>
    .object [("kind", .str "function"), ("name", .ofText? name), ("params", .ofList .str params),
      ("return_type", result.toJson style)]
  | .unknown => .object [("kind", .str "unknown")]

/-- The keys of an object with their types. -/
def Ty.entriesToJson (style : EntryStyle) : List (String × Ty) → List (String × Json)
  | [] => []
  | (key, type) :: entries => (key, type.toJson style) :: Ty.entriesToJson style entries

/-- The members of a class. -/
def Ty.membersToJson (style : EntryStyle) : List (ClassMember Ty) → List Json
  | [] => []
  | ⟨name, kind, isStatic, type⟩ :: members =>
    .object [("name", .str name), ("kind", .str kind.name), ("is_static", .bool isStatic),
      ("type_info", type.toJson style)] :: Ty.membersToJson style members
end

/-- A member with its type and the text of that. -/
def Member.toJson (style : EntryStyle) (m : Member) : Json :=
  .object [("name", .str m.name), ("kind", .str m.kind.name), ("type", m.type.toJson style),
    ("display", .str m.type.text)]

end Typeahead
