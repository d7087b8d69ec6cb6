import MiningAgent.Rounding
import MiningAgent.Text.Number
import MiningAgent.Text.Numeral

/-!
# The magnitude of numbers

A number of any length is turned into a double by two roundings.  Its leading digits
make up a 64-bit word, and what does not fit any more is left out.  The word is
rounded, multiplied by a rounded power of ten and rounded again.  That differs from
the nearest double in the last place now and then, so the largest numbers that stay
finite are not quite those that a single rounding would let through.
-/

namespace MiningAgent.Json

/-- The word that starts with `value` and takes in the digits that still fit, and
how many are left out. -/
def gather : Nat → List Char → Nat × Nat
  | value, [] => (value, 0)
  | value, digit :: rest =>
      let grown := value * 10 + Text.Numeral.digitsValue [digit]
      if Text.maxLong < grown then (value, rest.length + 1) else gather grown rest

theorem gather_le {value : Nat} (fits : value ≤ Text.maxLong) (digits : List Char) :
    (gather value digits).1 ≤ Text.maxLong := by
  induction digits generalizing value with
  | nil => exact fits
  | cons digit rest hypothesis =>
      simp only [gather]
      split
      · exact fits
      · exact hypothesis (by omega)

structure Magnitude where
  significand : Nat
  power : Int
deriving DecidableEq, Repr

namespace Magnitude

/-- What a number keeps of its digits.  A digit of the whole part that is left out
raises the power, one of the fraction that is taken in lowers it. -/
def ofNumeral (numeral : Text.Numeral) : Magnitude :=
  let whole := gather 0 numeral.whole
  let all := gather whole.1 numeral.fraction
  let taken : Int := numeral.fraction.length - all.2
  ⟨all.1, numeral.power + whole.2 - taken⟩

def bound : Rat := (2 : Rat) ^ (1024 : Int)

/-- Whether the product stays finite.  Only a power above one can make it grow, and
the largest that is a double is the 308th. -/
def isFinite (magnitude : Magnitude) : Bool :=
  magnitude.significand = 0 || magnitude.power ≤ 0 ||
    (magnitude.power ≤ 308 &&
      Rounding.toDouble
        (Rounding.toDouble magnitude.significand *
          Rounding.toDouble ((10 : Rat) ^ magnitude.power)) < bound)

end Magnitude

end MiningAgent.Json
