/-!
# Whole numbers in text

A number is an optional `+` and one or more decimal digits.  It is read from the
left, so the first thing that goes wrong names the fault.
-/

namespace MiningAgent.Text

/-- Why a text is not a number below its limit. -/
inductive NumberFault
  | empty
  | invalidDigit
  | tooLarge
deriving DecidableEq, Repr

def NumberFault.message : NumberFault → String
  | .empty => "cannot parse integer from empty string"
  | .invalidDigit => "invalid digit found in string"
  | .tooLarge => "number too large to fit in target type"

def isDigit (char : Char) : Bool :=
  '0' ≤ char && char ≤ '9'

/-- The value of a decimal digit. -/
def digit? (char : Char) : Option Nat :=
  if isDigit char then some (char.toNat - '0'.toNat) else none

/-- The value of a hexadecimal digit in either case. -/
def hexDigit? (char : Char) : Option Nat :=
  if isDigit char then some (char.toNat - '0'.toNat)
  else if 'a' ≤ char ∧ char ≤ 'f' then some (char.toNat - 'a'.toNat + 10)
  else if 'A' ≤ char ∧ char ≤ 'F' then some (char.toNat - 'A'.toNat + 10)
  else none

theorem hexDigit?_digitChar {digit : Nat} (small : digit < 16) :
    hexDigit? (Nat.digitChar digit) = some digit := by
  have every : ∀ digit : Fin 16, hexDigit? (Nat.digitChar digit) = some digit.val := by decide
  exact every ⟨digit, small⟩

/-- Reads the digits behind those that make up `value`; the result is at most
`limit`. -/
def readDigits (limit : Nat) : Nat → List Char → Except NumberFault Nat
  | value, [] => .ok value
  | value, char :: rest =>
      match digit? char with
      | none => .error .invalidDigit
      | some digit =>
          let grown := value * 10 + digit
          if limit < grown then .error .tooLarge else readDigits limit grown rest

/-- Reads a whole number of at most `limit`. -/
def readNumber (limit : Nat) : List Char → Except NumberFault Nat
  | [] => .error .empty
  | ['+'] => .error .invalidDigit
  | '+' :: digits => readDigits limit 0 digits
  | digits => readDigits limit 0 digits

/-- A number in decimal digits. -/
def decimal (number : Nat) : List Char := Nat.toDigits 10 number

theorem digit?_digitChar {digit : Nat} (small : digit < 10) :
    digit? (Nat.digitChar digit) = some digit := by
  have every : ∀ digit : Fin 10, digit? (Nat.digitChar digit) = some digit.val := by decide
  exact every ⟨digit, small⟩

theorem decimal_eq_append {number : Nat} (large : 10 ≤ number) :
    decimal number = decimal (number / 10) ++ [Nat.digitChar (number % 10)] := by
  have last := Nat.toDigits_append_toDigits (b := 10) (n := number / 10) (d := number % 10)
    (by omega) (by omega) (by omega)
  rw [Nat.toDigits_of_lt_base (by omega : number % 10 < 10)] at last
  rw [decimal, decimal, last]
  congr 1
  omega

theorem readDigits_append (limit value : Nat) (front rest : List Char) :
    readDigits limit value (front ++ rest) =
      (readDigits limit value front).bind fun read => readDigits limit read rest := by
  induction front generalizing value with
  | nil => rfl
  | cons char front hypothesis =>
      simp only [List.cons_append, readDigits]
      split
      · rfl
      · split
        · rfl
        · exact hypothesis _

theorem readDigits_decimal {limit number : Nat} (fits : number ≤ limit) :
    readDigits limit 0 (decimal number) = .ok number := by
  induction number using Nat.strongRecOn with
  | _ number hypothesis =>
      by_cases small : number < 10
      · rw [decimal, Nat.toDigits_of_lt_base small]
        have inside : ¬ limit < number := by omega
        simp [readDigits, digit?_digitChar small, inside]
      · have front := hypothesis (number / 10) (by omega) (by omega)
        have digit : digit? (Nat.digitChar (number % 10)) = some (number % 10) :=
          digit?_digitChar (by omega)
        have whole : number / 10 * 10 + number % 10 = number := by omega
        have inside : ¬ limit < number := by omega
        rw [decimal_eq_append (by omega), readDigits_append, front]
        simp [Except.bind, readDigits, digit, whole, inside]

/-- A number is read back from its digits. -/
theorem readNumber_decimal {limit number : Nat} (fits : number ≤ limit) :
    readNumber limit (decimal number) = .ok number := by
  have read := readDigits_decimal fits
  have digits : ∀ char ∈ decimal number, char.isDigit = true := fun char member =>
    Nat.isDigit_of_mem_toDigits (by omega) (by omega) member
  unfold readNumber
  split
  next empty => exact absurd empty Nat.toDigits_ne_nil
  next plus => simp [plus] at digits
  next rest plus => simp [plus] at digits
  next => exact read

/-- The largest 64-bit word. -/
def maxLong : Nat := 18446744073709551615

/-- The largest 32-bit word. -/
def maxWord : Nat := 4294967295

def readLong (text : List Char) : Except NumberFault UInt64 :=
  (readNumber maxLong text).map UInt64.ofNat

def readWord (text : List Char) : Except NumberFault UInt32 :=
  (readNumber maxWord text).map UInt32.ofNat

end MiningAgent.Text
