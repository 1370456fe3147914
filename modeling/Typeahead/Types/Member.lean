/-
# Members of types

The members that a type has by itself and by the built-in types. An object with
known keys answers from its keys first and from the members of all objects after
them; a class answers with the members of its side, and a constructor also with
those of functions.

Key definitions: `Member`, `Ty.lookup?`, `Ty.members`, `Catalog.fallbackMembers`.
-/
import Typeahead.Types.Globals

namespace Typeahead

/-- A member of a type. The type of a method is the type of its result. -/
structure Member where
  name : String
  kind : MemberKind
  type : Ty
  deriving Inhabited

namespace Member

/-- A built-in member, with the type of the elements if it is a member of an array. -/
def ofBuiltIn (element : Option Ty) (m : BuiltIn) : Member :=
  ⟨m.name, m.kind, .ofSpellingFor element m.spelling⟩

/-- A key of an object. One that holds a function is a method. -/
def ofEntry (name : String) : Ty → Member
  | .function _ _ result => ⟨name, .method, result⟩
  | type => ⟨name, .property, type⟩

/-- A member of a class. -/
def ofClassMember (m : ClassMember Ty) : Member := ⟨m.name, m.kind, m.type⟩

/-- A member of a built-in type. -/
def inCatalog? (type : String) (element : Option Ty) (name : String) : Option Member :=
  (Catalog.member? type name).map (ofBuiltIn element)

end Member

namespace Ty

/-- The member of a name that a type has. A built-in object that is not listed has
the members of all objects. -/
def lookup? (type : Ty) (name : String) : Option Member :=
  match type with
  | .unknown => none
  | .class info =>
    match info.sideMembers.find? (·.name = name), info.side with
    | some m, _ => some (.ofClassMember m)
    | none, .constructorSide => Member.inCatalog? "Function" none name
    | none, .instanceSide => none
  | .object _ (some entries) =>
    match Entries.get? entries name with
    | some value => some (.ofEntry name value)
    | none => Member.inCatalog? "Object" none name
  | _ =>
    type.catalogName?.bind fun catalog =>
      match Catalog.members? catalog with
      | some _ => Member.inCatalog? catalog type.element? name
      | none => Member.inCatalog? "Object" none name

/-- The members that a type lists. An object with known keys lists its keys only. -/
def members (type : Ty) : List Member :=
  match type with
  | .unknown => []
  | .class info => info.sideMembers.map .ofClassMember
  | .object _ (some entries) => entries.map fun entry => .ofEntry entry.1 entry.2
  | _ =>
    match type.catalogName? with
    | none => []
    | some catalog =>
      let listed := (Catalog.members? catalog).getD ((Catalog.members? "Object").getD [])
      listed.map (.ofBuiltIn type.element?)

end Ty

namespace Catalog

/-- The members without those whose name came before. -/
def distinct (members : List Member) : List Member :=
  members.foldl (fun kept m => if kept.any (·.name = m.name) then kept else kept ++ [m]) []

/-- The members offered for a value of unknown type: those of strings, arrays and
objects, each name as it comes first. -/
def fallbackMembers : List Member :=
  distinct (["String", "Array", "Object"].flatMap fun catalog =>
    ((members? catalog).getD []).map (.ofBuiltIn none))

end Catalog
end Typeahead
