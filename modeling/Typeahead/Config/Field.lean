/-
# Fields of settings

What a JSON5 value is worth as a switch, a count, a choice or a record of fields. A
record is an object, each of whose known fields is given at most once, or an array
with the fields in order. Whether an unknown field is allowed is up to the record;
its value has to be one that can be read all the same.

Key definitions: `Json5.toBool?`, `Json5.toCount?`, `Json5.choice?`, `Json5.fields?`.
-/
import Typeahead.Config.Json5
import Typeahead.Entries
import Typeahead.Number.Numeral
import Typeahead.Number.Shortest

namespace Typeahead.Json5

/-- The largest count. -/
def maxCount : Nat := 0xffffffffffffffff

/-- The natural number below a finite magnitude, or the largest count. -/
def floorCount (x : Binary64) : Nat :=
  let (significand, exponent) := x.decompose
  min maxCount <|
    if 0 ≤ exponent then significand <<< exponent.toNat else significand >>> (-exponent).toNat

/-- A hexadecimal numeral has no sign and is below 2^32. -/
def hexCount? (sign : Option Sign) (digits : List Char) : Option Nat :=
  if sign.isSome then none else (hexValue? digits).filter (· < 0x100000000)

/-- A numeral as a count. A number below 0 counts as 0, one past the largest as that, and
a fraction is dropped. -/
def Numeral.toCount? (n : Numeral) : Option Nat :=
  match n.magnitude with
  | .infinity =>
    match n.sign with
    | none => some maxCount
    | some .minus => some 0
    | some .plus => none
  | .notANumber => if n.sign = some .plus then none else some 0
  | .hexadecimal digits => hexCount? n.sign digits
  | .decimal text =>
    let x := decimalValue text
    if x.isFinite then some (if n.sign = some .minus then 0 else floorCount x) else none

/-- A numeral that can be read: an integer of 64 bits with a sign, or a number with a
point or an exponent that is not too large. -/
def Numeral.isReadable (n : Numeral) : Bool :=
  match n.magnitude with
  | .infinity | .notANumber => n.sign ≠ some .plus
  | .hexadecimal digits => (hexCount? n.sign digits).isSome
  | .decimal text =>
    if text.any fun c => c == '.' || c == 'e' || c == 'E' then (decimalValue text).isFinite
    else
      match digitsValue? 10 0 text with
      | some value =>
        if n.sign = some .minus then value ≤ 0x8000000000000000 else value < 0x8000000000000000
      | none => false

mutual
/-- A value that can be read. -/
def isReadable : Json5 → Bool
  | null | bool _ => true
  | number numeral => numeral.isReadable
  | string value => value.isSome
  | array items => allReadable items
  | object entries => entriesReadable entries

/-- Items that can be read. -/
def allReadable : List Json5 → Bool
  | [] => true
  | item :: items => isReadable item && allReadable items

/-- Entries whose names and values can be read. -/
def entriesReadable : List (Option String × Json5) → Bool
  | [] => true
  | (name, value) :: entries => name.isSome && isReadable value && entriesReadable entries
end

/-- A switch. -/
def toBool? : Json5 → Option Bool
  | bool value => some value
  | _ => none

/-- A count. -/
def toCount? : Json5 → Option Nat
  | number numeral => numeral.toCount?
  | _ => none

/-- The name of a choice: a string, or the first name of an object. What else the object
holds does not matter. -/
def choice? : Json5 → Option String
  | string value => value
  | object ((name, _) :: _) => name
  | _ => none

/-- The known fields among entries, added to those found before. -/
def collect? (names : List String) (allowsOthers : Bool) (found : Entries Json5) :
    List (Option String × Json5) → Option (Entries Json5)
  | [] => some found
  | (name, value) :: entries => do
    let name ← name
    if name ∈ names then
      if name ∈ found.keys then none
      else collect? names allowsOthers (found.insert name value) entries
    else if allowsOthers && isReadable value then collect? names allowsOthers found entries
    else none

/-- The known fields of a record. -/
def fields? (names : List String) (allowsOthers : Bool) : Json5 → Option (Entries Json5)
  | object entries => collect? names allowsOthers [] entries
  | array items => some (names.zip items)
  | _ => none

/-- The value of a field, which may be missing. -/
def field? {α : Type} (fields : Entries Json5) (read : Json5 → Option α) (name : String)
    (missing : α) : Option α :=
  match fields.get? name with
  | some value => read value
  | none => some missing

end Typeahead.Json5
