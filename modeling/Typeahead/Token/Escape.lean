/-
# The value of a string literal

What the escapes of a string stand for. `\x` and `\u` take the hexadecimal number
that follows; where it names no character, its text stands for itself. A
backslash before the end of a line removes both, and one before any other
character stands for that character.

Key definitions: `hexNumber?`, `resolveEscapes`, `stringBody`, `unescape`.
-/
namespace Typeahead

/-- The value of a hexadecimal digit. -/
def hexDigit? (c : Char) : Option Nat :=
  if c.isDigit then some (c.toNat - '0'.toNat)
  else if 'a' ≤ c ∧ c ≤ 'f' then some (c.toNat - 'a'.toNat + 10)
  else if 'A' ≤ c ∧ c ≤ 'F' then some (c.toNat - 'A'.toNat + 10)
  else none

/-- The number written by hexadecimal digits, read on from `value`. -/
def hexNumberFrom? (value : Nat) : List Char → Option Nat
  | [] => some value
  | c :: digits => do hexNumberFrom? (value * 16 + (← hexDigit? c)) digits

/-- The number below 2^32 written by at least one hexadecimal digit, after a plus
sign if there is one. -/
def hexNumber? (text : List Char) : Option Nat :=
  let digits := match text with
    | '+' :: digits => digits
    | digits => digits
  if digits.isEmpty then none else (hexNumberFrom? 0 digits).filter (· < 0x100000000)

/-- The character with a code point. -/
def charOfPoint? (point : Nat) : Option Char :=
  if h : point.isValidChar then some (Char.ofNatAux point h) else none

/-- What a hexadecimal escape stands for. -/
def hexEscape (digits : List Char) : List Char :=
  match (hexNumber? digits).bind charOfPoint? with
  | some c => [c]
  | none => digits

/-- The characters that a letter after a backslash stands for by itself. -/
def simpleEscape? : Char → Option Char
  | 'n' => some '\n'
  | 't' => some '\t'
  | 'r' => some '\r'
  | '0' => some '\x00'
  | 'b' => some '\x08'
  | 'f' => some '\x0c'
  | 'v' => some '\x0b'
  | _ => none

/-- A text with its escapes replaced by what they stand for. -/
def resolveEscapes : List Char → List Char
  | [] => []
  | ['\\'] => []
  | '\\' :: 'x' :: text => hexEscape (text.take 2) ++ resolveEscapes (text.drop 2)
  | '\\' :: 'u' :: '{' :: text =>
    let digits := text.takeWhile (· != '}')
    hexEscape digits ++ resolveEscapes (text.drop (digits.length + 1))
  | '\\' :: 'u' :: text => hexEscape (text.take 4) ++ resolveEscapes (text.drop 4)
  | '\\' :: '\n' :: text => resolveEscapes text
  | '\\' :: '\r' :: '\n' :: text => resolveEscapes text
  | '\\' :: '\r' :: text => resolveEscapes text
  | '\\' :: c :: text => (simpleEscape? c).getD c :: resolveEscapes text
  | c :: text => c :: resolveEscapes text
termination_by text => text.length
decreasing_by all_goals simp only [List.length_cons, List.length_drop]; omega

/-- A string literal without its opening quote and, if it ends in the same
character, without that. -/
def stringBody : List Char → List Char
  | [] => []
  | quote :: body => if body.getLast? = some quote then body.dropLast else body

/-- The value of a string literal written as `raw`. -/
def unescape (raw : List Char) : List Char := resolveEscapes (stringBody raw)

end Typeahead
