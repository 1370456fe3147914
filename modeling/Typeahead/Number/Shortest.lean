/-
# The shortest decimal of a number

The text of a finite double-precision number: the fewest significant digits that
read back as the number, and of those the nearest to it.

A positive value is `significand * 2 ^ exponent`. The reals that round to it form
an interval around it, whose ends belong to it where the significand is even. For
one digit, two digits and so on, the two decimals next to the value are tried; the
first that lie in the interval win.

Key definitions: `Binary64.decompose`, `roundsTo`, `candidate?`, `shortestDecimal`,
`Binary64.text?`.
-/
import Typeahead.Number.Binary64

namespace Typeahead

/-- A natural number times a power of ten. -/
structure Decimal where
  digits : Nat
  exponent : Int
  deriving DecidableEq, Repr, Inhabited

/-- A positive rational `num / den`. -/
structure Ratio where
  num : Nat
  den : Nat
  deriving DecidableEq, Repr, Inhabited

namespace Ratio

/-- `n * base ^ exponent`. -/
def scaled (n base : Nat) (exponent : Int) : Ratio :=
  if 0 ≤ exponent then ⟨n * Nat.pow base exponent.toNat, 1⟩
  else ⟨n, Nat.pow base (-exponent).toNat⟩

/-- `a < b`. -/
def lt (a b : Ratio) : Bool := a.num * b.den < b.num * a.den

/-- `a ≤ b`. -/
def le (a b : Ratio) : Bool := a.num * b.den ≤ b.num * a.den

end Ratio

namespace Binary64

/-- The sign of a number. -/
def isNegative (x : Binary64) : Bool := x.bits >>> 63 == 1

/-- The magnitude of a finite number, as a significand and a binary exponent. -/
def decompose (x : Binary64) : Nat × Int :=
  let fraction : Nat := x.bits.toNat % leadingBit
  let biased : Nat := x.bits.toNat / leadingBit % 0x800
  if biased = 0 then (fraction, -1074) else (fraction + leadingBit, (biased : Int) - 1075)

end Binary64

/-- The decimal is nearer to `significand * 2 ^ exponent` than to its neighbours, or
half-way and `significand` is even. -/
def roundsTo (significand : Nat) (exponent : Int) (d : Decimal) : Bool :=
  let value := Ratio.scaled d.digits 10 d.exponent
  -- Below a power of two the neighbours are half as far apart.
  let low :=
    if significand = Binary64.leadingBit ∧ exponent > -1074 then
      Ratio.scaled (4 * significand - 1) 2 (exponent - 2)
    else Ratio.scaled (2 * significand - 1) 2 (exponent - 1)
  let high := Ratio.scaled (2 * significand + 1) 2 (exponent - 1)
  if significand % 2 = 0 then low.le value && value.le high else low.lt value && value.lt high

/-- A decimal without zeros at its end. -/
def Decimal.normalize : (rounds : Nat) → Decimal → Decimal
  | 0, d => d
  | rounds + 1, d =>
    if d.digits ≠ 0 ∧ d.digits % 10 = 0 then
      Decimal.normalize rounds ⟨d.digits / 10, d.exponent + 1⟩
    else d

/-- The nearest decimal to `significand * 2 ^ exponent` with last place
`10 ^ place`, or the one on the other side of the value, if it reads back. Of two
at the same distance the even one is nearest. -/
def candidate? (significand : Nat) (exponent place : Int) : Option Decimal :=
  let value := Ratio.scaled significand 2 exponent
  let unit := Ratio.scaled 1 10 place
  let num := value.num * unit.den
  let den := value.den * unit.num
  let nearest := roundDiv num den
  let other := if nearest * den ≤ num then nearest + 1 else nearest - 1
  [nearest, other].findSome? fun digits =>
    let d : Decimal := ⟨digits, place⟩
    if digits ≠ 0 && roundsTo significand exponent d then some d else none

/-- The decimal position of the first digit of a value: the least `lead` with
`value < 10 ^ lead`, found from an estimate by its binary logarithm. -/
def leadOf (significand : Nat) (exponent : Int) : Int :=
  let value := Ratio.scaled significand 2 exponent
  let estimate := ((significand.log2 : Int) + exponent) * 30103 / 100000
  (([estimate, estimate + 1, estimate + 2].find? fun lead => value.lt (.scaled 1 10 lead))).getD
    (estimate + 3)

/-- The shortest decimal that reads back as `significand * 2 ^ exponent`. Seventeen
digits are always enough. -/
def shortestDecimal (significand : Nat) (exponent : Int) : Decimal :=
  let lead := leadOf significand exponent
  let found := (List.range 17).findSome? fun n =>
    candidate? significand exponent (lead - (n + 1 : Nat))
  (found.getD ⟨significand, 0⟩).normalize 20

/-- How a number is written. The decimal point may stand up to `wide` places after the
start of the digits and fewer than `narrow` places before it; other numbers have an
exponent, with a plus sign in front of a positive one if `plusSign`. -/
structure NumberFormat where
  wide : Int
  narrow : Int
  plusSign : Bool

/-- The format of reports: a point stands up to the sixteenth digit or within five
places before the first, and an exponent always has a sign. -/
def reportFormat : NumberFormat := ⟨16, 5, true⟩

/-- An exponent after its letter. -/
def NumberFormat.exponent (format : NumberFormat) (exponent : Int) : String :=
  if 0 ≤ exponent ∧ format.plusSign then "+" ++ toString exponent else toString exponent

/-- The text of a positive decimal. Positional notation always has a fraction. -/
def Decimal.text (format : NumberFormat) (d : Decimal) : String :=
  let digits := Nat.toDigits 10 d.digits
  let point := digits.length + d.exponent
  let zeros (n : Int) : List Char := List.replicate n.toNat '0'
  String.ofList <|
    if 0 ≤ d.exponent ∧ point ≤ format.wide then
      digits ++ zeros d.exponent ++ ['.', '0']
    else if 0 < point ∧ point ≤ format.wide then
      digits.take point.toNat ++ '.' :: digits.drop point.toNat
    else if -format.narrow < point ∧ point ≤ 0 then
      ['0', '.'] ++ zeros (-point) ++ digits
    else
      let fraction := if digits.length = 1 then [] else '.' :: digits.drop 1
      digits.take 1 ++ fraction ++ 'e' :: (format.exponent (point - 1)).toList

/-- The text of a number, if it is finite. -/
def Binary64.text? (x : Binary64) : Option String :=
  if !x.isFinite then none
  else
    let (significand, exponent) := x.decompose
    let magnitude :=
      if significand = 0 then "0.0" else (shortestDecimal significand exponent).text reportFormat
    some (if x.isNegative then "-" ++ magnitude else magnitude)

end Typeahead
