/-
# Offered members

The members that are offered after a value, each name once. Those of a class come
before those it inherits, and private names after both; what is offered for a value of
unknown type comes last.

Key definitions: `OfferedMember`, `ScopeTree.offered`.
-/
import Typeahead.Scope.Environment

namespace Typeahead

/-- A member that is offered. Lower orders come first. -/
structure OfferedMember where
  member : Member
  isUnknown : Bool
  order : Nat
  deriving Inhabited

namespace OfferedMember

/-- The order of own members. -/
def ownOrder : Nat := 0

/-- The order of inherited members. -/
def inheritedOrder : Nat := 10

/-- The order of private members. -/
def privateOrder : Nat := 90

/-- The order of the members of a value of unknown type. -/
def unknownOrder : Nat := 100

/-- A private name starts with `_` or `#`. -/
def isPrivate (name : String) : Bool :=
  match name.toList with
  | c :: _ => c == '_' || c == '#'
  | [] => false

/-- A member of a known type. -/
def known (order : Nat) (m : Member) : OfferedMember :=
  ⟨m, false, if isPrivate m.name then privateOrder else order⟩

/-- A member of an unknown type. -/
def unknown (m : Member) : OfferedMember := ⟨m, true, unknownOrder⟩

/-- The name of the member. -/
def label (offered : OfferedMember) : String := offered.member.name

/-- The members without those whose name came before. -/
def distinct (offered : List OfferedMember) : List OfferedMember :=
  offered.foldl
    (fun kept o => if kept.any (·.label == o.label) then kept else kept ++ [o]) []

/-- One member comes no later than another: by order, and then by name. -/
def notAfter (a b : OfferedMember) : Bool :=
  a.order < b.order || (a.order == b.order && (a.label == b.label || a.label < b.label))

end OfferedMember

namespace ScopeTree

open OfferedMember

/-- The member symbols in the scope of a class that are not among its static members. -/
def classScopeMembers (tree : ScopeTree) (info : ClassInfo Ty) : List Member :=
  match (tree.classScope? info.name).bind tree.get? with
  | none => []
  | some scope =>
    scope.symbols.values.filterMap fun symbol =>
      if info.members.any fun m => m.isStatic && m.name == symbol.name then none
      else
        match symbol.kind with
        | .method => some ⟨symbol.name, .method, symbol.typeOrUnknown⟩
        | .property => some ⟨symbol.name, .property, symbol.typeOrUnknown⟩
        | _ => none

/-- What is offered for a class: its members and, for an instance, the member symbols
of its scope; what it inherits; and for a constructor the members of functions. -/
def classOffered (tree : ScopeTree) (info : ClassInfo Ty) : List OfferedMember :=
  let line := tree.lineage root info
  let inherited := line.classes.flatMap fun c => (Ty.class c).members
  match info.side with
  | .instanceSide =>
    let builtIn := (line.last.map fun name => (Ty.named name).members).getD []
    ((Ty.class info).members ++ tree.classScopeMembers info).map (known ownOrder)
      ++ (inherited ++ builtIn).map (known inheritedOrder)
  | .constructorSide =>
    (Ty.class info).members.map (known ownOrder)
      ++ (inherited ++ (Ty.named "Function").members).map (known inheritedOrder)

/-- What is offered for a type before names are made distinct. What a function returns
is also what `call` and `apply` return. -/
def candidates (tree : ScopeTree) : Ty → List OfferedMember
  | .unknown => Catalog.fallbackMembers.map unknown
  | .class info => tree.classOffered info
  | .function name params result =>
    (Ty.function name params result).members.map fun m =>
      known ownOrder (if m.name = "call" ∨ m.name = "apply" then { m with type := result } else m)
  | type => type.members.map (known ownOrder)

/-- The members offered for a type, in their order and then by name. -/
def offered (tree : ScopeTree) (type : Ty) : List OfferedMember :=
  (distinct (tree.candidates type)).mergeSort notAfter

end ScopeTree
end Typeahead
