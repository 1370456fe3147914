/-
# Types of values

What is believed about the value of an expression. Nothing is ever an error: what
cannot be seen through has the type `unknown`.

Key definitions: `Ty`, `ClassInfo`, `Ty.catalogName?`, `Ty.callResult`.
-/
import Typeahead.Entries

namespace Typeahead

/-- The kinds of primitive values. -/
inductive PrimitiveKind where
  | string | number | boolean | bigint | symbol | null | undefined
  deriving DecidableEq, Repr, Inhabited

/-- The spelling of a primitive kind. -/
def PrimitiveKind.name : PrimitiveKind → String
  | .string => "string"
  | .number => "number"
  | .boolean => "boolean"
  | .bigint => "bigint"
  | .symbol => "symbol"
  | .null => "null"
  | .undefined => "undefined"

/-- The built-in type whose members a value of a primitive kind has. -/
def PrimitiveKind.wrapper? : PrimitiveKind → Option String
  | .string => some "String"
  | .number => some "Number"
  | .boolean => some "Boolean"
  | .bigint => some "BigInt"
  | .symbol => some "Symbol"
  | .null | .undefined => none

/-- Whether a member is read or called. -/
inductive MemberKind where
  | property | method
  deriving DecidableEq, Repr, Inhabited

/-- The spelling of a kind of member. -/
def MemberKind.name : MemberKind → String
  | .property => "property"
  | .method => "method"

/-- The two values a class stands for: its instances and itself. -/
inductive ClassSide where
  | instanceSide | constructorSide
  deriving DecidableEq, Repr, Inhabited

/-- The spelling of a side. -/
def ClassSide.name : ClassSide → String
  | .instanceSide => "instance"
  | .constructorSide => "constructor"

/-- A member of a class. The type of a method is the type of its result. -/
structure ClassMember (τ : Type) where
  name : String
  kind : MemberKind
  isStatic : Bool
  type : τ

/-- A class seen from one of its sides. The parent is the name of the class it
extends, where that is a plain name. -/
structure ClassInfo (τ : Type) where
  name : String
  members : List (ClassMember τ)
  parent : Option String
  side : ClassSide

/-- The type of a value. -/
inductive Ty where
  | primitive (kind : PrimitiveKind)
  | array (element : Ty)
  /-- A built-in object by its name, or an object by the types of its keys, or an
  object of which nothing is known. -/
  | object (name : Option String) (shape : Option (List (String × Ty)))
  | class (info : ClassInfo Ty)
  | function (name : Option String) (params : List String) (result : Ty)
  | unknown
  deriving Inhabited

/-- The static members are seen from the constructor and the others from an
instance. -/
def ClassSide.sees {τ : Type} (side : ClassSide) (member : ClassMember τ) : Bool :=
  member.isStatic == (side == .constructorSide)

namespace ClassInfo

variable {τ : Type}

/-- The members seen from the side of the class. -/
def sideMembers (info : ClassInfo τ) : List (ClassMember τ) := info.members.filter info.side.sees

/-- The class seen from another side. -/
def onSide (info : ClassInfo τ) (side : ClassSide) : ClassInfo τ := { info with side }

/-- The class has a member of the name among its static members or the others. -/
def hasMember (info : ClassInfo τ) (name : String) (isStatic : Bool) : Bool :=
  info.members.any fun m => m.name == name && m.isStatic == isStatic

/-- The class with a member, unless it has one of that name on that side. -/
def addMember (info : ClassInfo τ) (member : ClassMember τ) : ClassInfo τ :=
  if info.hasMember member.name member.isStatic then info
  else { info with members := info.members ++ [member] }

/-- The class with a member in place of any of that name on that side. -/
def replaceMember (info : ClassInfo τ) (member : ClassMember τ) : ClassInfo τ :=
  let others := info.members.filter fun m =>
    m.name != member.name || m.isStatic != member.isStatic
  { info with members := others ++ [member] }

end ClassInfo

namespace Ty

/-- The type of strings. -/
def string : Ty := primitive .string

/-- The type of numbers. -/
def number : Ty := primitive .number

/-- The type of booleans. -/
def boolean : Ty := primitive .boolean

/-- The type of `undefined`. -/
def undefined : Ty := primitive .undefined

/-- The type of a built-in object. -/
def named (name : String) : Ty := object (some name) none

/-- The type of an object with the given keys. -/
def shaped (entries : Entries Ty) : Ty := object none (some entries)

/-- The type of an object of which nothing is known. -/
def anyObject : Ty := object none none

/-- Nothing is known. -/
def isUnknown : Ty → Bool
  | unknown => true
  | _ => false

/-- The type is the given primitive. -/
def isPrimitive (kind : PrimitiveKind) : Ty → Bool
  | primitive k => k == kind
  | _ => false

/-- The type is that of a function. -/
def isFunction : Ty → Bool
  | function .. => true
  | _ => false

/-- The type of the elements of an array. -/
def element? : Ty → Option Ty
  | array element => some element
  | _ => none

/-- The keys of an object with their types. -/
def shape? : Ty → Option (Entries Ty)
  | object _ shape => shape
  | _ => none

/-- The class of a class value. -/
def class? : Ty → Option (ClassInfo Ty)
  | .class info => some info
  | _ => none

/-- The name of the built-in type that lists the members of a value. -/
def catalogName? : Ty → Option String
  | primitive kind => kind.wrapper?
  | array _ => some "Array"
  | object (some name) _ => some name
  | object none _ => some "Object"
  | function .. => some "Function"
  | .class _ | unknown => none

/-- The type of the result of calling a value. -/
def callResult : Ty → Ty
  | function _ _ result => result
  | _ => unknown

/-- The first type unless nothing is known of it. -/
@[macro_inline]
def orElse (ty fallback : Ty) : Ty := if ty.isUnknown then fallback else ty

end Ty
end Typeahead
