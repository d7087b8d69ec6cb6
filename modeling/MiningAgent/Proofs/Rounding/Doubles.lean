import MiningAgent.Rounding
import Mathlib.Algebra.Order.Floor.Ring
import Mathlib.Data.Int.Log
import Mathlib.Data.Rat.Floor
import Mathlib.Tactic.GCongr
import Mathlib.Tactic.Linarith
import Mathlib.Tactic.NormNum
import Mathlib.Tactic.Positivity
import Mathlib.Tactic.Ring

/-!
# Rounding keeps order

Doubles are the numbers with at most 53 significant bits.  Rounding leaves them as they are
and keeps the order of all other numbers, so a bound that is a double carries over from a
number to its rounding.  That is all that most statements about rounded arithmetic need.
-/

namespace MiningAgent.Rounding

theorem floor_le_nearest (value : Rat) : value.floor ≤ nearest value := by
  simp only [nearest]
  split_ifs <;> omega

theorem nearest_le_floor_add_one (value : Rat) : nearest value ≤ value.floor + 1 := by
  simp only [nearest]
  split_ifs <;> omega

theorem nearest_mono {smaller larger : Rat} (order : smaller ≤ larger) :
    nearest smaller ≤ nearest larger := by
  have floors : smaller.floor ≤ larger.floor := Int.floor_mono order
  rcases floors.lt_or_eq with apart | same
  · calc nearest smaller
      _ ≤ smaller.floor + 1 := nearest_le_floor_add_one smaller
      _ ≤ larger.floor := apart
      _ ≤ nearest larger := floor_le_nearest larger
  · simp only [nearest, ← same]
    split_ifs <;> first | omega | (exfalso; linarith)

@[simp] theorem nearest_intCast (number : Int) : nearest number = number := by
  simp [nearest, Rat.floor_intCast]

/-- The nearest integer is at most a half away, and even if it is just that far. -/
theorem nearest_spec (value : Rat) :
    |value - nearest value| ≤ 1 / 2 ∧
      (|value - nearest value| = 1 / 2 → Even (nearest value)) := by
  have below : (value.floor : Rat) ≤ value := Int.floor_le value
  have above : value < value.floor + 1 := Int.lt_floor_add_one value
  simp only [nearest]
  split_ifs with near far even
  · rw [abs_of_nonneg (by linarith)]
    exact ⟨near.le, fun tie => absurd tie near.ne⟩
  · push_cast
    rw [abs_of_nonpos (by linarith)]
    exact ⟨by linarith, fun tie => absurd tie (by linarith)⟩
  · rw [abs_of_nonneg (by linarith)]
    exact ⟨by linarith, fun _ => Int.even_iff.mpr even⟩
  · push_cast
    rw [abs_of_nonpos (by linarith)]
    exact ⟨by linarith, fun _ => Int.even_iff.mpr (by omega)⟩

/-- Nothing else is the nearest integer. -/
theorem eq_nearest {value : Rat} {number : Int} (near : |value - number| ≤ 1 / 2)
    (even : |value - number| = 1 / 2 → Even number) : number = nearest value := by
  obtain ⟨otherNear, otherEven⟩ := nearest_spec value
  by_contra different
  have apart : (1 : Rat) ≤ |(number : Rat) - nearest value| := by
    exact_mod_cast Int.one_le_abs (sub_ne_zero.mpr different)
  have between : |(number : Rat) - nearest value| ≤ |value - number| + |value - nearest value| := by
    have route := abs_sub_le (number : Rat) value (nearest value)
    rwa [abs_sub_comm (number : Rat) value] at route
  have tie := even (by linarith)
  have otherTie := otherEven (by linarith)
  have neighbours : |number - nearest value| = 1 := by
    have exactly : |(number : Rat) - nearest value| = 1 := by linarith
    exact_mod_cast exactly
  have odd : Odd (number - nearest value) := by
    rcases abs_eq_abs.mp (neighbours.trans abs_one.symm) with up | down
    · rw [up]
      exact odd_one
    · rw [down]
      exact odd_neg_one
  exact Int.not_even_iff_odd.mpr odd (tie.sub otherTie)

theorem nearest_neg (value : Rat) : nearest (-value) = -nearest value := by
  obtain ⟨near, even⟩ := nearest_spec value
  have mirrored : |-value - ((-nearest value : Int) : Rat)| = |value - nearest value| := by
    rw [← abs_neg (value - nearest value)]
    push_cast
    congr 1
    ring
  refine (eq_nearest ?_ ?_).symm
  · rw [mirrored]
    exact near
  · rw [mirrored]
    exact fun tie => (even tie).neg

theorem two_zpow_pos (exponent : Int) : (0 : Rat) < 2 ^ exponent := zpow_pos (by norm_num) _

theorem two_zpow_add (first second : Int) :
    (2 : Rat) ^ (first + second) = 2 ^ first * 2 ^ second :=
  zpow_add₀ (by norm_num) first second

/-- A power of two as so many units of a lower place. -/
theorem two_pow_mul_place (bits exponent : Int) :
    (2 : Rat) ^ bits * 2 ^ (exponent - bits) = 2 ^ exponent := by
  rw [← two_zpow_add, add_sub_cancel]

theorem two_zpow_le {first second : Int} (order : first ≤ second) :
    (2 : Rat) ^ first ≤ 2 ^ second :=
  zpow_le_zpow_right₀ (by norm_num) order

theorem log2_bounds {number : Nat} (positive : number ≠ 0) :
    (2 : Rat) ^ (number.log2 : Int) ≤ number ∧ (number : Rat) < 2 ^ (number.log2 + 1 : Int) := by
  constructor
  · exact_mod_cast Nat.log2_self_le positive
  · exact_mod_cast Nat.lt_log2_self

/-- The bit lengths of numerator and denominator fix the size up to a factor of two. -/
theorem guess_bounds {value : Rat} (positive : 0 < value) :
    (2 : Rat) ^ ((value.num.natAbs.log2 : Int) - value.den.log2 - 1) ≤ value ∧
      value < (2 : Rat) ^ ((value.num.natAbs.log2 : Int) - value.den.log2 + 1) := by
  have numPositive := Rat.num_pos.mpr positive
  obtain ⟨numLow, numHigh⟩ := log2_bounds (Int.natAbs_ne_zero.mpr numPositive.ne')
  obtain ⟨denLow, denHigh⟩ := log2_bounds value.den_nz
  have numerator : (value.num.natAbs : Rat) = value * value.den := by
    rw [Rat.mul_den_eq_num, Nat.cast_natAbs, abs_of_pos numPositive]
  rw [numerator] at numLow numHigh
  have denPositive : (0 : Rat) < value.den := Nat.cast_pos.mpr value.den_pos
  generalize (value.num.natAbs.log2 : Int) = top at *
  generalize (value.den.log2 : Int) = bottom at *
  constructor
  · by_contra smaller
    have product : value * value.den < 2 ^ (top - bottom - 1) * 2 ^ (bottom + 1) :=
      mul_lt_mul'' (not_le.mp smaller) denHigh positive.le denPositive.le
    have exponents : top - bottom - 1 + (bottom + 1) = top := by ring
    rw [← two_zpow_add, exponents] at product
    exact absurd numLow (not_le.mpr product)
  · by_contra larger
    have product : (2 : Rat) ^ (top - bottom + 1) * 2 ^ bottom ≤ value * value.den :=
      mul_le_mul (not_lt.mp larger) denLow (two_zpow_pos _).le positive.le
    have exponents : top - bottom + 1 + bottom = top + 1 := by ring
    rw [← two_zpow_add, exponents] at product
    exact absurd numHigh (not_lt.mpr product)

theorem log_eq_of_bounds {value : Rat} {exponent : Int} (low : (2 : Rat) ^ exponent ≤ value)
    (high : value < (2 : Rat) ^ (exponent + 1)) : Int.log 2 value = exponent := by
  have positive : 0 < value := (two_zpow_pos exponent).trans_le low
  have atLeast := (Int.zpow_le_iff_le_log (b := 2) (by norm_num) positive).mp low
  have below := (Int.lt_zpow_iff_log_lt (b := 2) (by norm_num) positive).mp high
  omega

theorem binaryExponent_eq_log {value : Rat} (positive : 0 < value) :
    binaryExponent value = Int.log 2 value := by
  obtain ⟨low, high⟩ := guess_bounds positive
  simp only [binaryExponent]
  split_ifs with reached
  · exact (log_eq_of_bounds reached high).symm
  · refine (log_eq_of_bounds low ?_).symm
    rw [sub_add_cancel]
    exact not_le.mp reached

/-- Numbers with at most 53 significant bits. -/
def IsDouble (value : Rat) : Prop :=
  ∃ significand exponent : Int, |significand| ≤ 2 ^ 53 ∧ value = significand * 2 ^ exponent

/-- The significant bits of a positive number behind rounding, as a whole number. -/
def significand (value : Rat) : Int := nearest (value / 2 ^ (Int.log 2 value - 52))

theorem toDouble_eq {value : Rat} (positive : 0 < value) :
    toDouble value = significand value * 2 ^ (Int.log 2 value - 52) := by
  have size : value.abs = value := Rat.abs_of_nonneg positive.le
  simp only [toDouble, positive.ne', if_false, size, lastPlace, binaryExponent_eq_log positive,
    significand]

@[simp] theorem toDouble_zero : toDouble 0 = 0 := by simp [toDouble]

theorem toDouble_neg (value : Rat) : toDouble (-value) = -toDouble value := by
  have size : (-value).abs = value.abs := Rat.abs_neg
  simp only [toDouble, size, neg_eq_zero, neg_div, nearest_neg]
  split_ifs
  · rw [neg_zero]
  · push_cast
    ring

/-- How many units of the last place a number is. -/
theorem scaled_bounds {value : Rat} (positive : 0 < value) :
    2 ^ 52 ≤ value / 2 ^ (Int.log 2 value - 52) ∧
      value / 2 ^ (Int.log 2 value - 52) < 2 ^ 53 := by
  have low : (2 : Rat) ^ Int.log 2 value ≤ value := Int.zpow_log_le_self (by norm_num) positive
  have high : value < (2 : Rat) ^ (Int.log 2 value + 1) :=
    Int.lt_zpow_succ_log_self (by norm_num) value
  rw [le_div_iff₀ (two_zpow_pos _), div_lt_iff₀ (two_zpow_pos _)]
  rw [← two_pow_mul_place 52] at low
  rw [← two_pow_mul_place 53, add_sub_assoc] at high
  exact ⟨by exact_mod_cast low, by exact_mod_cast high⟩

theorem significand_bounds {value : Rat} (positive : 0 < value) :
    2 ^ 52 ≤ significand value ∧ significand value ≤ 2 ^ 53 := by
  obtain ⟨low, high⟩ := scaled_bounds positive
  have lowest : nearest ((2 ^ 52 : Int) : Rat) = 2 ^ 52 := nearest_intCast _
  have highest : nearest ((2 ^ 53 : Int) : Rat) = 2 ^ 53 := nearest_intCast _
  constructor
  · rw [← lowest]
    exact nearest_mono (by exact_mod_cast low)
  · rw [← highest]
    exact nearest_mono (by exact_mod_cast high.le)

theorem toDouble_bounds {value : Rat} (positive : 0 < value) :
    (2 : Rat) ^ Int.log 2 value ≤ toDouble value ∧
      toDouble value ≤ 2 ^ (Int.log 2 value + 1) := by
  obtain ⟨low, high⟩ := significand_bounds positive
  have lowCast : (2 : Rat) ^ (52 : Int) ≤ significand value := by exact_mod_cast low
  have highCast : (significand value : Rat) ≤ 2 ^ (53 : Int) := by exact_mod_cast high
  have next : Int.log 2 value - 52 = Int.log 2 value + 1 - 53 := by ring
  rw [toDouble_eq positive]
  constructor
  · rw [← two_pow_mul_place 52 (Int.log 2 value)]
    exact mul_le_mul_of_nonneg_right lowCast (two_zpow_pos _).le
  · rw [← two_pow_mul_place 53 (Int.log 2 value + 1), ← next]
    exact mul_le_mul_of_nonneg_right highCast (two_zpow_pos _).le

theorem toDouble_pos {value : Rat} (positive : 0 < value) : 0 < toDouble value :=
  (two_zpow_pos _).trans_le (toDouble_bounds positive).1

theorem toDouble_mono_of_pos {smaller larger : Rat} (positive : 0 < smaller)
    (order : smaller ≤ larger) : toDouble smaller ≤ toDouble larger := by
  have exponents : Int.log 2 smaller ≤ Int.log 2 larger := Int.log_mono_right positive order
  rcases exponents.lt_or_eq with apart | same
  · calc toDouble smaller
      _ ≤ 2 ^ (Int.log 2 smaller + 1) := (toDouble_bounds positive).2
      _ ≤ 2 ^ Int.log 2 larger := two_zpow_le apart
      _ ≤ toDouble larger := (toDouble_bounds (positive.trans_le order)).1
  · have significands : significand smaller ≤ significand larger := by
      rw [significand, significand, same]
      exact nearest_mono (div_le_div_of_nonneg_right order (two_zpow_pos _).le)
    rw [toDouble_eq positive, toDouble_eq (positive.trans_le order), same]
    exact mul_le_mul_of_nonneg_right (Int.cast_le.mpr significands) (two_zpow_pos _).le

theorem toDouble_nonneg {value : Rat} (nonneg : 0 ≤ value) : 0 ≤ toDouble value := by
  rcases nonneg.lt_or_eq with positive | rfl
  · exact (toDouble_pos positive).le
  · exact toDouble_zero.ge

theorem toDouble_mono : Monotone toDouble := by
  intro smaller larger order
  rcases lt_or_ge 0 smaller with positive | smallerNonpos
  · exact toDouble_mono_of_pos positive order
  · rcases lt_or_ge larger 0 with negative | largerNonneg
    · have mirrored := toDouble_mono_of_pos (neg_pos.mpr negative) (neg_le_neg order)
      rwa [toDouble_neg, toDouble_neg, neg_le_neg_iff] at mirrored
    · have below : 0 ≤ toDouble (-smaller) := toDouble_nonneg (neg_nonneg.mpr smallerNonpos)
      rw [toDouble_neg, neg_nonneg] at below
      exact below.trans (toDouble_nonneg largerNonneg)

/-- Rounding to 53 significant bits: the result is at most half a unit of the last place away,
and its last bit is zero if it is just that far. -/
def RoundsTo (value rounded : Rat) : Prop :=
  (value = 0 ∧ rounded = 0) ∨
    ∃ bits place : Int, 2 ^ 52 * 2 ^ place ≤ |value| ∧ |value| < 2 ^ 53 * 2 ^ place ∧
      rounded = bits * 2 ^ place ∧ |value - rounded| ≤ 2 ^ place / 2 ∧
      (|value - rounded| = 2 ^ place / 2 → Even bits)

theorem roundsTo_of_pos {value : Rat} (positive : 0 < value) : RoundsTo value (toDouble value) := by
  obtain ⟨low, high⟩ := scaled_bounds positive
  obtain ⟨near, even⟩ := nearest_spec (value / 2 ^ (Int.log 2 value - 52))
  have unit := two_zpow_pos (Int.log 2 value - 52)
  have distance : |value - toDouble value| =
      |value / 2 ^ (Int.log 2 value - 52) - significand value| * 2 ^ (Int.log 2 value - 52) := by
    rw [← abs_of_pos unit, ← abs_mul, abs_of_pos unit, sub_mul, div_mul_cancel₀ _ unit.ne',
      toDouble_eq positive]
  have half : (2 : Rat) ^ (Int.log 2 value - 52) / 2 = 1 / 2 * 2 ^ (Int.log 2 value - 52) := by ring
  refine .inr ⟨significand value, Int.log 2 value - 52, ?_, ?_, toDouble_eq positive, ?_, ?_⟩
  · rwa [abs_of_pos positive, ← le_div_iff₀ unit]
  · rwa [abs_of_pos positive, ← div_lt_iff₀ unit]
  · rw [distance, half]
    exact mul_le_mul_of_nonneg_right near unit.le
  · intro tie
    rw [distance, half] at tie
    exact even (mul_right_cancel₀ unit.ne' tie)

theorem RoundsTo.neg {value rounded : Rat} (rounds : RoundsTo value rounded) :
    RoundsTo (-value) (-rounded) := by
  have distance : |-value - -rounded| = |value - rounded| := by
    rw [neg_sub_neg, abs_sub_comm]
  rcases rounds with ⟨rfl, rfl⟩ | ⟨bits, place, low, high, rfl, near, even⟩
  · exact .inl ⟨neg_zero, neg_zero⟩
  · refine .inr ⟨-bits, place, by rwa [abs_neg], by rwa [abs_neg], by push_cast; ring, ?_, ?_⟩
    · rwa [distance]
    · rw [distance]
      exact fun tie => (even tie).neg

theorem roundsTo_toDouble (value : Rat) : RoundsTo value (toDouble value) := by
  rcases lt_trichotomy value 0 with negative | rfl | positive
  · have mirrored := (roundsTo_of_pos (neg_pos.mpr negative)).neg
    rwa [toDouble_neg, neg_neg, neg_neg] at mirrored
  · exact .inl ⟨rfl, toDouble_zero⟩
  · exact roundsTo_of_pos positive

/-- Rounding changes a number by at most one part in `2 ^ 53`. -/
theorem toDouble_near {value : Rat} (positive : 0 < value) :
    value * (1 - 1 / 2 ^ 53) ≤ toDouble value ∧ toDouble value ≤ value * (1 + 1 / 2 ^ 53) := by
  rcases roundsTo_toDouble value with ⟨zero, _⟩ | ⟨_, place, low, _, _, near, _⟩
  · exact absurd zero positive.ne'
  · rw [abs_of_pos positive] at low
    obtain ⟨above, below⟩ := abs_le.mp near
    constructor
    · linarith
    · linarith

theorem toDouble_error {value : Rat} (nonneg : 0 ≤ value) :
    |toDouble value - value| ≤ value / 2 ^ 53 := by
  rcases nonneg.lt_or_eq with positive | rfl
  · obtain ⟨low, high⟩ := toDouble_near positive
    refine abs_le.mpr ⟨?_, ?_⟩
    · linarith
    · linarith
  · simp

theorem IsDouble.neg {value : Rat} (double : IsDouble value) : IsDouble (-value) := by
  obtain ⟨bits, exponent, few, rfl⟩ := double
  exact ⟨-bits, exponent, by rwa [abs_neg], by push_cast; ring⟩

/-- A double is a whole number of units of its last place. -/
theorem IsDouble.scaled {value : Rat} (double : IsDouble value) (positive : 0 < value) :
    ∃ units : Int, value / 2 ^ (Int.log 2 value - 52) = units := by
  obtain ⟨bits, exponent, few, same⟩ := double
  rcases le_or_gt (Int.log 2 value - 52) exponent with fine | coarse
  · refine ⟨bits * 2 ^ (exponent - (Int.log 2 value - 52)).toNat, ?_⟩
    have power : (2 : Rat) ^ exponent =
        2 ^ (exponent - (Int.log 2 value - 52)).toNat * 2 ^ (Int.log 2 value - 52) := by
      rw [← zpow_natCast, ← two_zpow_add]
      congr 1
      omega
    rw [div_eq_iff (two_zpow_pos _).ne']
    calc value
      _ = bits * 2 ^ exponent := same
      _ = _ := by rw [power]; push_cast; ring
  · refine ⟨2 ^ 52, ?_⟩
    have fewCast : (bits : Rat) ≤ 2 ^ (53 : Int) := by exact_mod_cast (le_abs_self bits).trans few
    have low : (2 : Rat) ^ Int.log 2 value ≤ value := Int.zpow_log_le_self (by norm_num) positive
    have high : value ≤ 2 ^ Int.log 2 value := by
      calc value
        _ = bits * 2 ^ exponent := same
        _ ≤ 2 ^ (53 : Int) * 2 ^ exponent :=
            mul_le_mul_of_nonneg_right fewCast (two_zpow_pos _).le
        _ = 2 ^ (53 + exponent) := (two_zpow_add _ _).symm
        _ ≤ 2 ^ Int.log 2 value := two_zpow_le (by omega)
    rw [div_eq_iff (two_zpow_pos _).ne']
    calc value
      _ = 2 ^ Int.log 2 value := le_antisymm high low
      _ = 2 ^ (52 : Int) * 2 ^ (Int.log 2 value - 52) := (two_pow_mul_place _ _).symm
      _ = _ := by norm_num

theorem toDouble_of_isDouble {value : Rat} (double : IsDouble value) : toDouble value = value := by
  have fixed : ∀ size : Rat, IsDouble size → 0 < size → toDouble size = size := by
    intro size sizeDouble positive
    obtain ⟨units, whole⟩ := sizeDouble.scaled positive
    rw [toDouble_eq positive, significand, whole, nearest_intCast, ← whole,
      div_mul_cancel₀ _ (two_zpow_pos _).ne']
  rcases lt_trichotomy value 0 with negative | rfl | positive
  · have mirrored := fixed (-value) double.neg (neg_pos.mpr negative)
    rwa [toDouble_neg, neg_inj] at mirrored
  · exact toDouble_zero
  · exact fixed value double positive

/-- A bound that is a double holds for the rounded number as well. -/
theorem IsDouble.le_toDouble {bound value : Rat} (double : IsDouble bound) (below : bound ≤ value) :
    bound ≤ toDouble value := by
  rw [← toDouble_of_isDouble double]
  exact toDouble_mono below

theorem IsDouble.toDouble_le {bound value : Rat} (double : IsDouble bound) (above : value ≤ bound) :
    toDouble value ≤ bound := by
  rw [← toDouble_of_isDouble double]
  exact toDouble_mono above

theorem isDouble_intCast {number : Int} (small : |number| ≤ 2 ^ 53) : IsDouble number :=
  ⟨number, 0, small, by simp⟩

theorem isDouble_two_zpow (exponent : Int) : IsDouble (2 ^ exponent) :=
  ⟨1, exponent, by norm_num, by simp⟩

end MiningAgent.Rounding
