/-
# JSON5 text

The format of the settings: JSON with comments, names without quotes, strings in
single quotes, trailing commas and the numerals of scripts. A value is read with
its numerals as they are written, since what a numeral is worth depends on what it
is read for. A string whose escapes write half of a surrogate pair is text of no
value.

Key definitions: `Json5`, `Json5.Numeral`, `Json5.ofText?`, `Json5.afterBlanks?`.
-/
import Typeahead.Config.Name
import Typeahead.Text.Blank
import Typeahead.Token.Escape

namespace Typeahead

namespace Json5

/-- What follows the sign of a numeral. -/
inductive Magnitude where
  | decimal (text : List Char)
  | hexadecimal (digits : List Char)
  | infinity
  | notANumber
  deriving DecidableEq, Repr, Inhabited

/-- The sign in front of a numeral. -/
inductive Sign where
  | plus | minus
  deriving DecidableEq, Repr, Inhabited

/-- A number as it is written. -/
structure Numeral where
  sign : Option Sign
  magnitude : Magnitude
  deriving DecidableEq, Repr, Inhabited

end Json5

/-- A JSON5 value. A string, also as the name of an entry, may be of no value. -/
inductive Json5 where
  | null
  | bool (value : Bool)
  | number (numeral : Json5.Numeral)
  | string (value : Option String)
  | array (items : List Json5)
  | object (entries : List (Option String × Json5))
  deriving Inhabited

namespace Json5

/-- A blank of the format. -/
def isSpace (c : Char) : Bool := (Text.isBlank c && c != '\u0085') || c == '\ufeff'

/-- Where a character between two tokens stands. -/
inductive Gap where
  | outside | lineComment | blockComment
  deriving DecidableEq, Repr

/-- The text after the blanks and comments at its start, if every comment is closed. -/
def afterGap? : Gap → List Char → Option (List Char)
  | .outside, '/' :: '/' :: text => afterGap? .lineComment text
  | .outside, '/' :: '*' :: text => afterGap? .blockComment text
  | .outside, c :: text => if isSpace c then afterGap? .outside text else some (c :: text)
  | .lineComment, c :: text =>
    afterGap? (if Text.isLineTerminator c then .outside else .lineComment) text
  | .blockComment, '*' :: '/' :: text => afterGap? .outside text
  | .blockComment, _ :: text => afterGap? .blockComment text
  | .outside, [] | .lineComment, [] => some []
  | .blockComment, [] => none

/-- The text after the blanks and comments at its start. -/
def afterBlanks? (text : List Char) : Option (List Char) := afterGap? .outside text

/-- The number that hexadecimal digits write. -/
def hexValue? (digits : List Char) : Option Nat := hexNumberFrom? 0 digits

/-- The character that one after a backslash stands for: one of the named controls, or
itself unless it is a digit. -/
def namedEscape? : Char → Option Char
  | 'b' => some '\x08'
  | 'f' => some '\x0c'
  | 'n' => some '\n'
  | 'r' => some '\r'
  | 't' => some '\t'
  | 'v' => some '\x0b'
  | '0' => some '\x00'
  | c => if c.isDigit then none else some c

/-- The code points that a string writes up to its closing mark. An escape may write
half of a surrogate pair. -/
def stringPoints? (mark : Char) : List Char → Option (List Nat × List Char)
  | [] => none
  | '\\' :: '\r' :: '\n' :: text => stringPoints? mark text
  | '\\' :: 'x' :: a :: b :: text => do
    let point ← hexValue? [a, b]
    let (points, rest) ← stringPoints? mark text
    some (point :: points, rest)
  | '\\' :: 'u' :: a :: b :: c :: d :: text => do
    let point ← hexValue? [a, b, c, d]
    let (points, rest) ← stringPoints? mark text
    some (point :: points, rest)
  | '\\' :: c :: text =>
    if Text.isLineTerminator c then stringPoints? mark text
    else if c = 'x' ∨ c = 'u' then none
    else do
      let escaped ← namedEscape? c
      let (points, rest) ← stringPoints? mark text
      some (escaped.toNat :: points, rest)
  | c :: text =>
    if c = mark then some ([], text)
    else if c = '\\' ∨ Text.isLineTerminator c then none
    else do
      let (points, rest) ← stringPoints? mark text
      some (c.toNat :: points, rest)

/-- The code points that a name without quotes writes, after its first character if
`started`. -/
def namePoints? (started : Bool) : List Char → Option (List Nat × List Char)
  | '\\' :: 'u' :: a :: b :: c :: d :: text => do
    let point ← hexValue? [a, b, c, d]
    let (points, rest) ← namePoints? true text
    some (point :: points, rest)
  | c :: text =>
    if if started then isNamePart c else isNameStart c then do
      let (points, rest) ← namePoints? true text
      some (c.toNat :: points, rest)
    else if started then some ([], c :: text)
    else none
  | [] => if started then some ([], []) else none

/-- The text that code points write. Two halves of a surrogate pair that follow each
other are one character; a half that stands alone is none. -/
def textOfPoints? : List Nat → Option (List Char)
  | [] => some []
  | high :: low :: points => do
    if 0xd800 ≤ high ∧ high < 0xdc00 ∧ 0xdc00 ≤ low ∧ low < 0xe000 then
      let c ← charOfPoint? (0x10000 + (high - 0xd800) * 0x400 + (low - 0xdc00))
      some (c :: (← textOfPoints? points))
    else
      let c ← charOfPoint? high
      some (c :: (← textOfPoints? (low :: points)))
  | [point] => do some [← charOfPoint? point]

/-- The value of the text that code points write. -/
def valueOfPoints? (points : List Nat) : Option String := (textOfPoints? points).map .ofList

/-- The length of the exponent that a text starts with. -/
def exponentLength (text : List Char) : Nat :=
  match text with
  | e :: rest =>
    if e = 'e' ∨ e = 'E' then
      let signLength := match rest with
        | '+' :: _ | '-' :: _ => 1
        | _ => 0
      let digits := ((rest.drop signLength).takeWhile Char.isDigit).length
      if digits = 0 then 0 else 1 + signLength + digits
    else 0
  | [] => 0

/-- The length of the decimal numeral that a text starts with, 0 if there is none. A
numeral with a whole part other than 0 does not start with 0. -/
def decimalLength (text : List Char) : Nat :=
  let whole := match text with
    | '0' :: _ => 1
    | _ => (text.takeWhile Char.isDigit).length
  let fraction := match text.drop whole with
    | '.' :: rest =>
      let digits := (rest.takeWhile Char.isDigit).length
      if whole = 0 ∧ digits = 0 then 0 else 1 + digits
    | _ => 0
  let mantissa := whole + fraction
  if mantissa = 0 then 0 else mantissa + exponentLength (text.drop mantissa)

/-- The decimal numeral that a text starts with. -/
def decimal? (text : List Char) : Option (Magnitude × List Char) :=
  let length := decimalLength text
  if length = 0 then none else some (.decimal (text.take length), text.drop length)

/-- The numeral without a sign that a text starts with. -/
def magnitude? (text : List Char) : Option (Magnitude × List Char) :=
  match text with
  | 'I' :: 'n' :: 'f' :: 'i' :: 'n' :: 'i' :: 't' :: 'y' :: rest => some (.infinity, rest)
  | 'N' :: 'a' :: 'N' :: rest => some (.notANumber, rest)
  | '0' :: x :: rest =>
    let digits := rest.takeWhile fun c => (hexDigit? c).isSome
    if (x = 'x' ∨ x = 'X') ∧ digits ≠ [] then
      some (.hexadecimal digits, rest.drop digits.length)
    else decimal? text
  | _ => decimal? text

/-- The numeral that a text starts with. -/
def numeral? (text : List Char) : Option (Numeral × List Char) :=
  let (sign, rest) := match text with
    | '+' :: rest => (some Sign.plus, rest)
    | '-' :: rest => (some Sign.minus, rest)
    | _ => (none, text)
  (magnitude? rest).map fun (magnitude, rest) => (⟨sign, magnitude⟩, rest)

/-- The name of an entry that a text starts with, quoted or not. -/
def name? : List Char → Option (Option String × List Char)
  | '\x22' :: text => (stringPoints? '\x22' text).map fun (points, rest) => (valueOfPoints? points, rest)
  | '\x27' :: text => (stringPoints? '\x27' text).map fun (points, rest) => (valueOfPoints? points, rest)
  | text => (namePoints? false text).map fun (points, rest) => (valueOfPoints? points, rest)

/-- The text after a mark it starts with and the blanks that follow. -/
def afterMark? (mark : Char) : List Char → Option (List Char)
  | c :: text => if c = mark then afterBlanks? text else none
  | [] => none

mutual
/-- The value that a text without blanks at its start starts with. -/
def value? : Nat → List Char → Option (Json5 × List Char)
  | 0, _ => none
  | fuel + 1, text =>
    match text with
    | '\x7b' :: text => do
      let (entries, rest) ← entries? fuel false (← afterBlanks? text)
      some (.object entries, rest)
    | '[' :: text => do
      let (items, rest) ← items? fuel false (← afterBlanks? text)
      some (.array items, rest)
    | '\x22' :: text =>
      (stringPoints? '\x22' text).map fun (points, rest) => (.string (valueOfPoints? points), rest)
    | '\x27' :: text =>
      (stringPoints? '\x27' text).map fun (points, rest) => (.string (valueOfPoints? points), rest)
    | 'n' :: 'u' :: 'l' :: 'l' :: rest => some (.null, rest)
    | 't' :: 'r' :: 'u' :: 'e' :: rest => some (.bool true, rest)
    | 'f' :: 'a' :: 'l' :: 's' :: 'e' :: rest => some (.bool false, rest)
    | text => (numeral? text).map fun (numeral, rest) => (.number numeral, rest)

/-- The items of an array up to its closing bracket. After an item a comma or the
bracket is wanted, `separated` if so. -/
def items? : Nat → Bool → List Char → Option (List Json5 × List Char)
  | 0, _, _ => none
  | fuel + 1, separated, text =>
    match text with
    | ']' :: rest => some ([], rest)
    | _ => do
      let text ← if separated then afterMark? ',' text else some text
      match separated, text with
      | true, ']' :: rest => some ([], rest)
      | _, _ =>
        let (item, rest) ← value? fuel text
        let (items, rest) ← items? fuel true (← afterBlanks? rest)
        some (item :: items, rest)

/-- The entries of an object up to its closing brace, like the items of an array. -/
def entries? : Nat → Bool → List Char → Option (List (Option String × Json5) × List Char)
  | 0, _, _ => none
  | fuel + 1, separated, text =>
    match text with
    | '\x7d' :: rest => some ([], rest)
    | _ => do
      let text ← if separated then afterMark? ',' text else some text
      match separated, text with
      | true, '\x7d' :: rest => some ([], rest)
      | _, _ =>
        let (name, rest) ← name? text
        let (value, rest) ← value? fuel (← afterMark? ':' (← afterBlanks? rest))
        let (entries, rest) ← entries? fuel true (← afterBlanks? rest)
        some ((name, value) :: entries, rest)
end

/-- The value that a whole text writes. No more than two steps are taken for a
character of it. -/
def ofText? (text : List Char) : Option Json5 := do
  let (value, rest) ← value? (2 * text.length + 2) (← afterBlanks? text)
  if (← afterBlanks? rest).isEmpty then some value else none

end Json5
end Typeahead
