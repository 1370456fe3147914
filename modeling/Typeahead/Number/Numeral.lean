/-
# Numerals

The value of a number as a script writes it: decimal digits with a point and an
exponent, or digits after `0x`, `0o` or `0b`. Separators `_` count for nothing. A
number after a radix letter must have digits and fit in 64 bits; otherwise it is
not a number.

Key definitions: `digitsValue`, `decimalValue`, `numeralValue`.
-/
import Typeahead.Number.Binary64
import Typeahead.Token.Escape

namespace Typeahead

/-- The number that digits of a radix write, read on from `value`. -/
def digitsValue? (radix value : Nat) : List Char → Option Nat
  | [] => some value
  | c :: digits => do
    let digit ← (hexDigit? c).filter (· < radix)
    digitsValue? radix (value * radix + digit) digits

/-- The value of an exponent after its `e`. -/
def exponentValue : List Char → Int
  | '-' :: digits => -((digitsValue? 10 0 digits).getD 0 : Nat)
  | '+' :: digits => ((digitsValue? 10 0 digits).getD 0 : Nat)
  | digits => ((digitsValue? 10 0 digits).getD 0 : Nat)

/-- The value of a decimal numeral without separators. -/
def decimalValue (text : List Char) : Binary64 :=
  let whole := text.takeWhile Char.isDigit
  let afterWhole := text.drop whole.length
  let fraction := match afterWhole with
    | '.' :: rest => rest.takeWhile Char.isDigit
    | _ => []
  let exponent := match afterWhole.dropWhile fun c => c == '.' || c.isDigit with
    | _ :: rest => exponentValue rest
    | [] => 0
  .ofDecimal ((digitsValue? 10 0 (whole ++ fraction)).getD 0) (exponent - fraction.length)

/-- The value of a numeral with digits of a radix. -/
def radixValue (radix : Nat) (digits : List Char) : Binary64 :=
  match if digits.isEmpty then none else digitsValue? radix 0 digits with
  | some value => if value < 0x10000000000000000 then .ofNat value else .nan
  | none => .nan

/-- The value of a numeral. -/
def numeralValue (raw : List Char) : Binary64 :=
  match raw.filter (· != '_') with
  | '0' :: 'x' :: digits | '0' :: 'X' :: digits => radixValue 16 digits
  | '0' :: 'o' :: digits | '0' :: 'O' :: digits => radixValue 8 digits
  | '0' :: 'b' :: digits | '0' :: 'B' :: digits => radixValue 2 digits
  | digits => decimalValue digits

end Typeahead
