/-
# Double-precision numbers

The values of the IEEE 754 format binary64, by their bits. A decimal numeral is
read exactly and then rounded to the nearest value, a tie to the even one; a
magnitude too large for the format is infinite.

Key definitions: `Binary64`, `roundDiv`, `Binary64.ofRatio`, `Binary64.ofDecimal`,
`Binary64.ofNat`.
-/
namespace Typeahead

/-- A double-precision number by its bits: a sign bit, eleven bits of exponent and
fifty-two of fraction. -/
structure Binary64 where
  bits : UInt64
  deriving DecidableEq, Repr, Inhabited

/-- The natural number nearest to `num / den`, of two the even one. -/
def roundDiv (num den : Nat) : Nat :=
  let quotient := num / den
  let twice := 2 * (num % den)
  if twice < den then quotient
  else if twice > den then quotient + 1
  else quotient + quotient % 2

namespace Binary64

/-- The value that is not a number. -/
def nan : Binary64 := ⟨0x7ff8000000000000⟩

/-- Positive infinity. -/
def infinity : Binary64 := ⟨0x7ff0000000000000⟩

/-- Zero. -/
def zero : Binary64 := ⟨0⟩

/-- The value of the leading bit of a significand of full length. -/
def leadingBit : Nat := 0x10000000000000

/-- Neither infinite nor `nan`. -/
def isFinite (x : Binary64) : Bool := (x.bits >>> 52) &&& 0x7ff != 0x7ff

/-- The binary exponent of the last place of the value that represents `num / den`:
the quotient has 53 bits there, unless it is too small. -/
def lastPlace (num den : Nat) : Int :=
  let estimate : Int := (num.log2 : Int) - den.log2
  -- `num / den` lies between 2^(estimate - 1) and 2^(estimate + 1).
  let below : Bool :=
    if 0 ≤ estimate then num < den <<< estimate.toNat else num <<< (-estimate).toNat < den
  max (estimate - (if below then 1 else 0) - 52) (-1074)

/-- The value nearest to the positive ratio `num / den`. -/
def ofRatio (num den : Nat) : Binary64 :=
  let place := lastPlace num den
  let significand :=
    if 0 ≤ place then roundDiv num (den <<< place.toNat) else roundDiv (num <<< (-place).toNat) den
  -- The leading bit of a normal significand adds one to the exponent; a subnormal one has none.
  let encoded := (place + 1074).toNat * leadingBit + significand
  if encoded < 0x7ff0000000000000 then ⟨encoded.toUInt64⟩ else infinity

/-- The value nearest to `digits * 10 ^ exponent`. -/
def ofDecimal (digits : Nat) (exponent : Int) : Binary64 :=
  let magnitude := (Nat.toDigits 10 digits).length + exponent
  if digits = 0 ∨ magnitude < -330 then zero
  else if magnitude > 310 then infinity
  else if 0 ≤ exponent then ofRatio (digits * Nat.pow 10 exponent.toNat) 1
  else ofRatio digits (Nat.pow 10 (-exponent).toNat)

/-- The value nearest to a natural number. -/
def ofNat (n : Nat) : Binary64 := if n = 0 then zero else ofRatio n 1

end Binary64
end Typeahead
