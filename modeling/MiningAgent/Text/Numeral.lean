/-!
# Decimal numerals

A number with its digits as they are written: sign, whole part, fraction and
exponent.
-/

namespace MiningAgent.Text

/-- A number as it is written.  The fraction is empty if there is no point; the
exponent has a sign and digits. -/
structure Numeral where
  negative : Bool
  whole : List Char
  fraction : List Char
  exponent : Option (Bool × List Char)
deriving DecidableEq, Repr

namespace Numeral

def ofNat (number : Nat) : Numeral :=
  ⟨false, Nat.toDigits 10 number, [], none⟩

def digitsValue (digits : List Char) : Nat :=
  digits.foldl (fun value digit => value * 10 + (digit.toNat - '0'.toNat)) 0

/-- The number, if it is written without sign, fraction and exponent. -/
def natural? (numeral : Numeral) : Option Nat :=
  if numeral.negative ∨ numeral.fraction ≠ [] ∨ numeral.exponent ≠ none then none
  else some (digitsValue numeral.whole)

def power (numeral : Numeral) : Int :=
  match numeral.exponent with
  | none => 0
  | some (negative, digits) =>
      if negative then -(digitsValue digits : Int) else digitsValue digits

/-- The power of ten that multiplies the digits read as one whole number. -/
def scale (numeral : Numeral) : Int :=
  numeral.power - numeral.fraction.length

/-- Whether the number stays finite in double precision: it is below half a unit
past the largest double.  The count of digits settles all but a few sizes. -/
def isFinite (numeral : Numeral) : Bool :=
  let significand := digitsValue (numeral.whole ++ numeral.fraction)
  let size : Int := (Nat.toDigits 10 significand).length + numeral.scale
  if significand = 0 ∨ size < 300 then true
  else if 310 < size then false
  else
    let limit := (9007199254740992 * 2 - 1) <<< 970
    if 0 ≤ numeral.scale then significand * Nat.pow 10 numeral.scale.toNat < limit
    else significand < limit * Nat.pow 10 (-numeral.scale).toNat

end Numeral

end MiningAgent.Text
