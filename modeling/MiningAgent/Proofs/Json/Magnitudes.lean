import MiningAgent.Proofs.Json.Digits
import MiningAgent.Proofs.Rounding.Doubles

/-!
# How large a whole number may be

Two roundings and the digits that are left out blur the bound of the finite numbers.  It
stays between two neighbouring powers of ten: whole numbers of at most 308 digits are
finite, and those of 310 digits or more are not.
-/

namespace MiningAgent.Json

open Text Text.Numeral

/-- The number that digits make up behind those of `value`. -/
def numberBehind (value : Nat) (digits : List Char) : Nat :=
  digits.foldl (fun value digit => value * 10 + (digit.toNat - '0'.toNat)) value

theorem digitsValue_single_le {digit : Char} (known : isDigit digit) :
    digitsValue [digit] ≤ 9 := by
  simp only [isDigit, Bool.and_eq_true, decide_eq_true_eq, Char.le_def,
    UInt32.le_iff_toNat_le] at known
  simp only [digitsValue, List.foldl_cons, List.foldl_nil, Char.toNat]
  have nine : '9'.val.toNat = 57 := rfl
  have zero : '0'.val.toNat = 48 := rfl
  omega

theorem numberBehind_cons (value : Nat) (digit : Char) (rest : List Char) :
    numberBehind value (digit :: rest) = numberBehind (value * 10 + digitsValue [digit]) rest := by
  simp [numberBehind, digitsValue]

theorem numberBehind_bounds {digits : List Char} (each : ∀ digit ∈ digits, isDigit digit)
    (value : Nat) :
    value * 10 ^ digits.length ≤ numberBehind value digits ∧
      numberBehind value digits < (value + 1) * 10 ^ digits.length := by
  induction digits generalizing value with
  | nil => simp [numberBehind]
  | cons digit rest hypothesis =>
      have small := digitsValue_single_le (each digit (by simp))
      obtain ⟨low, high⟩ := hypothesis (fun other here => each other (by simp [here]))
        (value * 10 + digitsValue [digit])
      rw [numberBehind_cons, List.length_cons]
      constructor
      · calc value * 10 ^ (rest.length + 1)
          _ = value * 10 * 10 ^ rest.length := by ring
          _ ≤ (value * 10 + digitsValue [digit]) * 10 ^ rest.length :=
              Nat.mul_le_mul_right _ (Nat.le_add_right _ _)
          _ ≤ _ := low
      · calc numberBehind (value * 10 + digitsValue [digit]) rest
          _ < (value * 10 + digitsValue [digit] + 1) * 10 ^ rest.length := high
          _ ≤ ((value + 1) * 10) * 10 ^ rest.length := Nat.mul_le_mul_right _ (by omega)
          _ = (value + 1) * 10 ^ (rest.length + 1) := by ring

/-- The word that is gathered holds the leading digits.  It is large if any are left out. -/
theorem gather_bounds {digits : List Char} (each : ∀ digit ∈ digits, isDigit digit)
    {value word left : Nat} (gathered : gather value digits = (word, left)) :
    word * 10 ^ left ≤ numberBehind value digits ∧
      numberBehind value digits < (word + 1) * 10 ^ left ∧
      (left ≠ 0 → maxLong < word * 10 + 10) := by
  induction digits generalizing value with
  | nil =>
      cases gathered
      simp [numberBehind]
  | cons digit rest hypothesis =>
      have small := digitsValue_single_le (each digit (by simp))
      simp only [gather] at gathered
      split at gathered
      next large =>
        cases gathered
        obtain ⟨low, high⟩ := numberBehind_bounds each word
        exact ⟨low, high, fun _ => by omega⟩
      next fits =>
        rw [numberBehind_cons]
        exact hypothesis (fun other here => each other (by simp [here])) gathered

/-- What a whole number keeps of its digits is short of it by less than one in the last digit
that is kept.  Digits are left out only behind others that do not vanish. -/
theorem ofInteger_magnitude (negative : Bool) (magnitude : Nat) :
    ∃ word left : Nat, Magnitude.ofNumeral (.ofInteger negative magnitude) = ⟨word, left⟩ ∧
      word * 10 ^ left ≤ magnitude ∧ magnitude < (word + 1) * 10 ^ left ∧
      word ≤ maxLong ∧ (left ≠ 0 → 0 < word) := by
  have each : ∀ digit ∈ decimal magnitude, isDigit digit := fun _ => isDigit_of_mem_decimal
  have behind : numberBehind 0 (decimal magnitude) = magnitude := digitsValue_decimal magnitude
  obtain ⟨low, high, large⟩ := gather_bounds each (rfl : gather 0 (decimal magnitude) = (_, _))
  rw [behind] at low high
  have most : maxLong = 18446744073709551615 := rfl
  refine ⟨_, _, ?_, low, high, gather_le (Nat.zero_le _) _, fun some => ?_⟩
  · simp [Magnitude.ofNumeral, Numeral.ofInteger, Numeral.power, gather]
  · have ten := large some
    omega

section Product

open Rounding

variable {first second : Rat}

/-- A product of two rounded factors before it is rounded itself. -/
theorem product_bounds (positive : 0 < first) (present : 0 < second) :
    first * second * (1 - 1 / 2 ^ 53) ^ 2 ≤ toDouble first * toDouble second ∧
      toDouble first * toDouble second ≤ first * second * (1 + 1 / 2 ^ 53) ^ 2 := by
  obtain ⟨firstLow, firstHigh⟩ := toDouble_near positive
  obtain ⟨secondLow, secondHigh⟩ := toDouble_near present
  have short : (0 : Rat) ≤ 1 - 1 / 2 ^ 53 := by norm_num
  constructor
  · calc first * second * (1 - 1 / 2 ^ 53) ^ 2
      _ = first * (1 - 1 / 2 ^ 53) * (second * (1 - 1 / 2 ^ 53)) := by ring
      _ ≤ toDouble first * toDouble second :=
          mul_le_mul firstLow secondLow (mul_nonneg present.le short) (toDouble_pos positive).le
  · calc toDouble first * toDouble second
      _ ≤ first * (1 + 1 / 2 ^ 53) * (second * (1 + 1 / 2 ^ 53)) :=
          mul_le_mul firstHigh secondHigh (toDouble_pos present).le
            (mul_nonneg positive.le (by norm_num))
      _ = first * second * (1 + 1 / 2 ^ 53) ^ 2 := by ring

theorem product_finite (positive : 0 < first) (present : 0 < second)
    (small : first * second ≤ 5 * 2 ^ (1021 : Int)) :
    toDouble (toDouble first * toDouble second) < Magnitude.bound := by
  have unit := two_zpow_pos 971
  have place : (2 : Rat) ^ (1021 : Int) = 2 ^ 50 * 2 ^ (971 : Int) := two_zpow_add 50 971
  have bound : Magnitude.bound = 2 ^ 53 * 2 ^ (971 : Int) := two_zpow_add 53 971
  have largest : IsDouble ((2 ^ 53 - 1 : Int) * 2 ^ (971 : Int)) :=
    ⟨2 ^ 53 - 1, 971, by norm_num, rfl⟩
  have product : toDouble first * toDouble second ≤ ((2 ^ 53 - 1 : Int) : Rat) * 2 ^ (971 : Int) :=
    calc toDouble first * toDouble second
      _ ≤ first * second * (1 + 1 / 2 ^ 53) ^ 2 := (product_bounds positive present).2
      _ ≤ 5 * 2 ^ (1021 : Int) * (1 + 1 / 2 ^ 53) ^ 2 :=
          mul_le_mul_of_nonneg_right small (by norm_num)
      _ = 5 * 2 ^ 50 * (1 + 1 / 2 ^ 53) ^ 2 * 2 ^ (971 : Int) := by rw [place]; ring
      _ ≤ _ := mul_le_mul_of_nonneg_right (by norm_num) unit.le
  calc toDouble (toDouble first * toDouble second)
    _ ≤ ((2 ^ 53 - 1 : Int) : Rat) * 2 ^ (971 : Int) := largest.toDouble_le product
    _ < 2 ^ 53 * 2 ^ (971 : Int) := mul_lt_mul_of_pos_right (by norm_num) unit
    _ = Magnitude.bound := bound.symm

theorem product_infinite (positive : 0 < first) (present : 0 < second)
    (large : 2 * 2 ^ (1024 : Int) ≤ first * second) :
    Magnitude.bound ≤ toDouble (toDouble first * toDouble second) := by
  refine (isDouble_two_zpow 1024).le_toDouble ?_
  have unit := two_zpow_pos 1024
  calc (2 : Rat) ^ (1024 : Int)
    _ ≤ 2 * (1 - 1 / 2 ^ 53) ^ 2 * 2 ^ (1024 : Int) := le_mul_of_one_le_left unit.le (by norm_num)
    _ = 2 * 2 ^ (1024 : Int) * (1 - 1 / 2 ^ 53) ^ 2 := by ring
    _ ≤ first * second * (1 - 1 / 2 ^ 53) ^ 2 := mul_le_mul_of_nonneg_right large (by norm_num)
    _ ≤ toDouble first * toDouble second := (product_bounds positive present).1

end Product

theorem isFinite_ofInteger (negative : Bool) {magnitude : Nat} (small : magnitude < 10 ^ 308) :
    (Magnitude.ofNumeral (.ofInteger negative magnitude)).isFinite := by
  obtain ⟨word, left, same, low, _, _, _⟩ := ofInteger_magnitude negative magnitude
  have top : 10 ^ 308 ≤ 5 * 2 ^ 1021 := by decide +kernel
  rw [same, Magnitude.isFinite]
  rcases Nat.eq_zero_or_pos word with rfl | positive
  · simp
  · have few : left < 308 := by
      have one : 10 ^ left ≤ word * 10 ^ left := Nat.le_mul_of_pos_left _ positive
      exact (pow_lt_pow_iff_right₀ (by norm_num : 1 < 10)).mp
        (lt_of_le_of_lt (one.trans low) small)
    have product : (word : Rat) * 10 ^ (left : Int) ≤ 5 * 2 ^ (1021 : Int) := by
      exact_mod_cast low.trans (small.le.trans top)
    have finite := product_finite (Nat.cast_pos.mpr positive) (zpow_pos (by norm_num) _) product
    have inside : (left : Int) ≤ 308 := by exact_mod_cast few.le
    simp only [Bool.or_eq_true, Bool.and_eq_true, decide_eq_true_eq]
    exact .inr ⟨inside, finite⟩

theorem not_isFinite_ofInteger (negative : Bool) {magnitude : Nat} (large : 10 ^ 309 ≤ magnitude) :
    (Magnitude.ofNumeral (.ofInteger negative magnitude)).isFinite = false := by
  obtain ⟨word, left, same, _, high, fits, filled⟩ := ofInteger_magnitude negative magnitude
  have top : 2 * (2 * 2 ^ 1024) ≤ 10 ^ 309 := by decide +kernel
  have several : left ≠ 0 := by
    rintro rfl
    have most : maxLong < 2 * (2 * 2 ^ 1024) := by decide +kernel
    omega
  have positive := filled several
  have product : 2 * 2 ^ (1024 : Int) ≤ (word : Rat) * 10 ^ (left : Int) := by
    have doubled : 2 * (2 * 2 ^ 1024) < 2 * (word * 10 ^ left) :=
      calc 2 * (2 * 2 ^ 1024)
        _ ≤ magnitude := top.trans large
        _ < (word + 1) * 10 ^ left := high
        _ ≤ 2 * word * 10 ^ left := Nat.mul_le_mul_right _ (by omega)
        _ = 2 * (word * 10 ^ left) := Nat.mul_assoc ..
    exact_mod_cast (Nat.lt_of_mul_lt_mul_left doubled).le
  have infinite := product_infinite (Nat.cast_pos.mpr positive) (zpow_pos (by norm_num) _) product
  rw [same, Magnitude.isFinite]
  simp only [Bool.or_eq_false_iff, Bool.and_eq_false_iff, decide_eq_false_iff_not, not_lt]
  exact ⟨⟨positive.ne', by omega⟩, .inr infinite⟩

end MiningAgent.Json
