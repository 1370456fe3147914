/-
# What is offered in HTML and CSS

In HTML tags are offered after `<` and then attributes that the tag does not have
yet; in CSS tags as selectors, properties in a block, and values after a colon. The
place is read from the text in front of the word that is being typed.

Key definitions: `Completion.inHtml`, `Completion.inCss`.
-/
import Typeahead.Completion.Item
import Typeahead.Markup.Css
import Typeahead.Markup.Html
import Typeahead.Text.Search

namespace Typeahead.Completion

open Text

/-- What follows the last occurrence of a character. -/
def afterLast? (c : Char) (text : List Char) : Option (List Char) :=
  (lastIndexOf? [c] text).map fun index => text.drop (index + 1)

/-- What comes before the first occurrence of a character. -/
def beforeFirst (c : Char) (text : List Char) : List Char := text.takeWhile (· != c)

/-- The items of the tags. -/
def tagItems : List CompletionItem :=
  Html.tags.map fun tag => { label := tag, kind := .tag }

/-- The item of an attribute. One that has a value is inserted with it. -/
def attributeItem (order : Nat) (name : String) : CompletionItem :=
  { label := name, kind := .attribute, order := order,
    insertText := if name ∈ Html.booleanAttributes then none else some (name ++ "=\x22\x22") }

/-- The names without those that came before, and without some others. -/
def distinctNames (others : List String) : List String → List String
  | [] => []
  | name :: names =>
    if name ∈ others then distinctNames others names
    else name :: distinctNames (name :: others) names

/-- The items of the attributes of a tag that are not present, its own first. -/
def attributeItems (tag : String) (present : List String) : List CompletionItem :=
  let own := distinctNames present (Html.tagAttributes tag)
  let shared := distinctNames (own ++ present) Html.globalAttributes
  own.map (attributeItem 0) ++ shared.map (attributeItem 10)

/-- The tag is in the middle of a value: after `=`, or after a mark that is not closed. -/
def inValue (inside : List Char) : Bool :=
  inside.getLast? == some '=' || inside.count '\x22' % 2 == 1 || inside.count '\x27' % 2 == 1

/-- The names of the attributes that a tag has. -/
def presentNames (parts : List (List Char)) : List String :=
  parts.map fun part => String.ofList (beforeFirst '=' part)

/-- What is offered in a tag, given its text after `<`. -/
def inTag (inside : List Char) : List CompletionItem :=
  if !inside.any isBlank then tagItems
  else if inValue inside then []
  else
    match words inside with
    | [] => attributeItems "" []
    | tag :: parts => attributeItems (String.ofList tag) (presentNames parts)

/-- What is offered in HTML after the given text. Nothing is outside of tags and in
declarations and comments. -/
def inHtml (before : List Char) (typed : String) : CompletionResult :=
  let result : CompletionResult := { language := .html, typed := typed }
  match afterLast? '<' before with
  | none => result
  | some inside =>
    if '>' ∈ inside ∨ inside.head? = some '!' then result
    else { result with isGlobal := true, entries := inTag inside }

/-- The last comment of a text is not closed. -/
def inComment (text : List Char) : Bool :=
  match lastIndexOf? ['/', '*'] text, lastIndexOf? ['*', '/'] text with
  | none, _ => false
  | some _, none => true
  | some opening, some closing => closing < opening

/-- The item of a property, which is inserted with a colon. -/
def propertyItem (name : String) : CompletionItem :=
  { label := name, kind := .property, ownSortText := some "11", insertText := some (name ++ ": ") }

/-- The item of a value. -/
def valueItem (order : Nat) (name : String) : CompletionItem :=
  { label := name, kind := .value, order := order }

/-- What is offered in a block, given its text: values after a colon, else properties. -/
def inBlock (block : List Char) : List CompletionItem :=
  let declaration := (afterLast? ';' block).getD block
  if ':' ∈ declaration then
    let property := String.ofList (trim (beforeFirst ':' declaration))
    (Css.propertyValues property).map (valueItem 0) ++ Css.globalValues.map (valueItem 10)
  else Css.properties.map propertyItem

/-- What is offered in CSS after the given text. Nothing is in comments. -/
def inCss (before : List Char) (typed : String) : CompletionResult :=
  let result : CompletionResult := { language := .css, typed := typed }
  if inComment before then result
  else
    match afterLast? '\x7b' before with
    | some block =>
      let entries := if '\x7d' ∈ block then tagItems else inBlock block
      { result with isGlobal := true, entries := entries }
    | none => { result with isGlobal := true, entries := tagItems }

end Typeahead.Completion
