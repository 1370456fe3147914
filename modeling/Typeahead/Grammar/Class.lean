/-
# Classes

A class has a name, a superclass and elements: methods, accessors, fields, and
static blocks, which leave nothing behind. While recovering, an element that does
not parse is skipped.

Key definitions: `classElement`, `classParts`.
-/
import Typeahead.Grammar.Literal

namespace Typeahead.Grammar

open Parse

variable (g : Grammar)

/-- A word that restricts access, before a key. -/
def atAccessModifier (s : ParserState) : Bool :=
  (s.atReserved "public" || s.atReserved "private" || s.atReserved "protected") && modifiesKey s

/-- The string a computed key stands for, or a placeholder. -/
def computedName : Node → String
  | ⟨_, .stringLiteral value⟩ => value
  | _ => "[computed]"

/-- The name of a class element. -/
def elementName : Parse String := do
  let s ← get
  let token := s.current
  match token.kind with
  | .punct .hash =>
    let _ ← next
    return "#" ++ (← anyWord)
  | .string =>
    let _ ← next
    return String.ofList (unescape token.text.toList)
  | .number =>
    let _ ← next
    return token.text
  | .punct .openBracket =>
    let _ ← next
    let key ← allowIn (g .assignment)
    let _ ← expect .closeBracket
    return computedName key
  | kind =>
    if kind.isWord then
      let _ ← next
      return token.text
    else throw (s.unexpected .identifier)

/-- The kind of method that the modifier `get` or `set` makes, if it is read. -/
def accessorKind (isAsync isGenerator : Bool) : Parse MethodKind := do
  let s ← get
  if !isAsync && !isGenerator && atAccessor s then
    let _ ← next
    return if s.atKeyword .getWord then .getter else .setter
  else return .method

/-- A method or field after its modifiers. -/
def elementFrom (start : Nat) (isStatic isAsync isGenerator : Bool) : Parse Node := do
  let kind ← accessorKind isAsync isGenerator
  let key ← elementName g
  if (← get).atMark .openParen then
    let kind :=
      if kind = .method && !isStatic && key == "constructor" then .constructor else kind
    let bodyStart ← offset
    let value := functionNode bodyStart (← functionRest g (some key) isAsync)
    return ⟨⟨start, value.stop⟩, .methodMember key kind isStatic value⟩
  else
    let value ← if ← nextMark .equals then some <$> g .assignment else pure none
    semicolon
    finish start (.fieldMember key value isStatic)

/-- A class element after its access modifiers; nothing for a static block. -/
def elementAfterAccess (start : Nat) : Parse (Option Node) := do
  let s ← get
  if s.atKeyword .staticWord && s.following.kind == .punct .openBrace then
    let _ ← next
    let _ ← block g
    return none
  else
    let isStatic ← nextIf fun s => s.atKeyword .staticWord && modifiesKey s
    let isAsync ← nextIf fun s =>
      s.atKeyword .asyncWord && modifiesKey s && !s.following.afterLineBreak
    let isGenerator ← nextMark .asterisk
    return some (← elementFrom g start isStatic isAsync isGenerator)

/-- A class element; nothing for a static block. -/
def classElement : Parse (Option Node) := do
  let start ← offset
  let _ ← collectUntil (!atAccessModifier ·) do
    let _ ← next
    return some ()
  elementAfterAccess g start

/-- A class element; nothing for a semicolon, or for one that is skipped while
recovering. -/
def listedElement : Parse (Option Node) := do
  if ← nextMark .semicolon then return none
  let start := (← get).position
  match ← attempt (classElement g) with
  | .ok element => return element
  | .error fault =>
    if (← get).recovering then
      modify fun s => skipElement start (s.report fault)
      return none
    else throw fault

/-- `class Name extends Expression { elements }` -/
def classParts (requireName : Bool) : Parse (ClassParts Node) := do
  let _ ← expectKind (.keyword .classWord)
  let name ←
    if requireName || (← get).atBindingName then some <$> bindingName else pure none
  let superclass ←
    if ← nextIf (·.atKeyword .extendsWord) then some <$> g .leftHandSide else pure none
  let bodyStart ← offset
  let _ ← expect .openBrace
  let members ← collectUntil (fun s => s.atMark .closeBrace || s.atEnd) (listedElement g)
  let stop ← closeBrace
  return { name, superclass, members, bodyRange := ⟨bodyStart, stop⟩ }

end Typeahead.Grammar
