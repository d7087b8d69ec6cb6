/-!
# Rounding to double precision

Real-valued quantities are exact rationals.  An operation of double-precision
arithmetic is the exact result followed by `toDouble`, which keeps 53
significant bits and sends a tie to the even neighbour.  `ofFloat?` and
`toFloat` pass between these rationals and machine numbers.
-/

namespace MiningAgent.Rounding

/-- The integer nearest to `value`; a half goes to the even neighbour. -/
def nearest (value : Rat) : Int :=
  let below := value.floor
  let rest := value - below
  if rest < 1 / 2 then below
  else if 1 / 2 < rest then below + 1
  else if below % 2 = 0 then below
  else below + 1

/-- The exponent `e` with `2 ^ e ≤ value < 2 ^ (e + 1)`, for a positive `value`.
The bit lengths of numerator and denominator leave two candidates. -/
def binaryExponent (value : Rat) : Int :=
  let guess : Int := (value.num.natAbs.log2 : Int) - (value.den.log2 : Int)
  if (2 : Rat) ^ guess ≤ value then guess else guess - 1

/-- The last of the 53 significant bits of a positive `value`. -/
def lastPlace (value : Rat) : Rat :=
  (2 : Rat) ^ (binaryExponent value - 52)

/-- The double nearest to `value`, ties to even.  The exponent is unbounded:
every quantity rounded here lies well inside the range of normal doubles. -/
def toDouble (value : Rat) : Rat :=
  if value = 0 then 0
  else
    let place := lastPlace value.abs
    nearest (value / place) * place

def ofWord (word : UInt64) : Rat :=
  toDouble word.toNat

def ofFloat? (number : Float) : Option Rat :=
  let bits := number.toBits.toNat
  let fraction := bits % 4503599627370496
  let exponent := bits / 4503599627370496 % 2048
  if exponent = 2047 then none
  else
    let magnitude : Rat :=
      if exponent = 0 then fraction * (2 : Rat) ^ (-1074 : Int)
      else (4503599627370496 + fraction : Nat) * (2 : Rat) ^ ((exponent : Int) - 1075)
    some (if bits < 9223372036854775808 then magnitude else -magnitude)

/-- The machine number of a rational whose numerator and denominator are both
exact as machine numbers. -/
def toFloat (value : Rat) : Float :=
  Float.ofInt value.num / Float.ofNat value.den

end MiningAgent.Rounding
