/-
# What is known where an expression stands

An expression is evaluated where some names are bound and `this` has some type. The
parameters of a function hide the names outside of it.

Key definitions: `TypeEnvironment`, `TypeEnvironment.builtIn`,
`TypeEnvironment.withParameters`.
-/
import Typeahead.Types.Member

namespace Typeahead

/-- What is known where an expression stands: the types of names, the type of `this`,
the types of members, and what `new` makes of a name. -/
structure TypeEnvironment where
  typeOf? : String → Option Ty
  thisType : Ty
  memberType? : Ty → String → Option Ty
  construct : String → Ty

namespace TypeEnvironment

/-- What `new` makes of a name of a given type: an instance of a class, or of the
built-in type of that name. -/
def constructed (type : Option Ty) (name : String) : Ty :=
  match type with
  | some (.class info) => .class (info.onSide .instanceSide)
  | _ => (Catalog.constructed? name).getD .unknown

/-- Only the built-in names are known. -/
def builtIn : TypeEnvironment where
  typeOf? := Catalog.globalType?
  thisType := .unknown
  memberType? := fun object name => (object.lookup? name).map (·.type)
  construct := fun name => constructed (Catalog.globalType? name) name

/-- What is known in the body of a function: its parameters hide the names outside,
nothing is known of what `new` makes of them, and a method has a `this` of its own. -/
def withParameters (outer : TypeEnvironment) (params : Entries Ty) (ownThis : Option Ty) :
    TypeEnvironment where
  typeOf? := fun name =>
    match params.get? name with
    | some type => some type
    | none => outer.typeOf? name
  thisType := ownThis.getD outer.thisType
  memberType? := outer.memberType?
  construct := fun name =>
    if (params.get? name).isSome then .unknown else outer.construct name

end TypeEnvironment
end Typeahead
