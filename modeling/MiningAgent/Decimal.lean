import MiningAgent.Rounding

/-!
# Decimal and hexadecimal text

Seconds are written with a fixed number of places, nonces as eight hexadecimal
digits.
-/

namespace MiningAgent.Decimal

/-- The digits of `number` in `base`, filled up with zeros on the left. -/
def padded (base width number : Nat) : List Char :=
  let digits := Nat.toDigits base number
  List.replicate (width - digits.length) '0' ++ digits

theorem padded_ascii {code : Nat} (small : code < 128) :
    padded 16 4 code = ['0', '0', Nat.digitChar (code / 16), Nat.digitChar (code % 16)] := by
  have every : ∀ code : Fin 128, padded 16 4 code =
      ['0', '0', Nat.digitChar (code.val / 16), Nat.digitChar (code.val % 16)] := by decide
  exact every ⟨code, small⟩

/-- `value` in units of `10 ^ -places`, rounded to nearest with ties to even. -/
def units (places : Nat) (value : Rat) : Nat :=
  (Rounding.nearest (value * (Nat.pow 10 places : Nat))).toNat

/-- A nonnegative `value` written with exactly `places` decimals. -/
def fixed (places : Nat) (value : Rat) : String :=
  let count := units places value
  let one := Nat.pow 10 places
  String.ofList (Nat.toDigits 10 (count / one) ++ '.' :: padded 10 places (count % one))

def hexWord (word : UInt32) : String :=
  String.ofList (padded 16 8 word.toNat)

end MiningAgent.Decimal
