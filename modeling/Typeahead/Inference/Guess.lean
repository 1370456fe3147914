/-
# Guesses from names

What a name suggests about a value of which nothing else is known: `saveButton` is a
button, `isOpen` a boolean, `rowCount` a number.

Key definitions: `Guess.ofName?`, `Guess.ofMethod?`.
-/
import Typeahead.Text.Search
import Typeahead.Types.Basic

namespace Typeahead.Guess

/-- The methods that give elements of a page, whatever has them. -/
def elementMethods : Entries String :=
  [("querySelector", "HTMLElement"), ("getElementById", "HTMLElement"),
   ("closest", "HTMLElement"), ("createElement", "HTMLElement"),
   ("appendChild", "HTMLElement"), ("cloneNode", "HTMLElement"),
   ("querySelectorAll", "NodeList"), ("getElementsByClassName", "NodeList"),
   ("getElementsByTagName", "NodeList")]

/-- The parts of a name that suggest an element, the strongest first. -/
def elementParts : List (String × String) :=
  [("button", "HTMLButtonElement"), ("btn", "HTMLButtonElement"),
   ("input", "HTMLInputElement"), ("field", "HTMLInputElement"), ("modal", "HTMLElement"),
   ("dialog", "HTMLElement"), ("container", "HTMLElement"), ("wrapper", "HTMLElement"),
   ("element", "HTMLElement"), ("panel", "HTMLElement")]

/-- The ends of a name that suggest an array. -/
def arrayEnds : List String := ["list", "items", "array"]

/-- The ends of a name that suggest a string. -/
def stringEnds : List String := ["name", "title", "text", "label", "message", "url", "path"]

/-- The ends of a name that suggest a number. -/
def numberEnds : List String := ["count", "index", "total", "length", "width", "height"]

/-- The text ends with one of the words. -/
def endsWithAny (words : List String) (text : List Char) : Bool :=
  words.any fun word => word.toList.isSuffixOf text

/-- The word and then an upper-case letter begin the name. -/
def startsWithWord (word : String) (name : List Char) : Bool :=
  word.toList.isPrefixOf name && (name.drop word.length).head?.any Char.isUpper

/-- The type that a name suggests for its value. -/
def ofName? (name : String) : Option Ty :=
  let chars := name.toList
  let lower := chars.map Char.toLower
  match elementParts.find? fun hint => Text.occursIn hint.1.toList lower with
  | some (_, type) => some (.named type)
  | none =>
    if lower = ['e', 'l'] ∨ (2 < chars.length ∧ "El".toList.isSuffixOf chars) then
      some (.named "HTMLElement")
    else if startsWithWord "is" chars || startsWithWord "has" chars then some .boolean
    else if endsWithAny arrayEnds lower then some (.array .unknown)
    else if endsWithAny stringEnds lower then some .string
    else if endsWithAny numberEnds lower then some .number
    else none

/-- The type that the name of a method suggests for its result. -/
def ofMethod? (name : String) : Option Ty := (elementMethods.get? name).map .named

end Typeahead.Guess
