import MiningAgent.Report
import MiningAgent.Proofs.Rounding.Doubles
import Mathlib.Algebra.Group.Nat.Defs

/-!
# Seconds in a report

The mining time is rounded three times on its way to a report: as a word to a double, as a
quotient to a double, and as a double to three decimals.  The first two roundings move it by some
thousand nanoseconds at most, so that whole milliseconds are told exactly, and only the last one
is to be seen.  All three keep order.
-/

namespace MiningAgent

namespace Decimal

/-- The text says `count` units of `10 ^ -places`: digits, a point, and as many digits behind it
as there are places. -/
def Says (text : String) (places count : Nat) : Prop :=
  ∃ whole fraction : List Char, text = String.ofList (whole ++ '.' :: fraction) ∧
    whole ≠ [] ∧ fraction.length = places ∧ (∀ char ∈ whole ++ fraction, char.isDigit = true) ∧
    Nat.ofDigitChars 10 (whole ++ fraction) 0 = count

variable {width number : Nat}

theorem length_padded (wide : 0 < width) (fits : number < 10 ^ width) :
    (padded 10 width number).length = width := by
  have short : (Nat.toDigits 10 number).length ≤ width :=
    (Nat.length_toDigits_le_iff (by decide) wide).mpr fits
  rw [padded, List.length_append, List.length_replicate]
  omega

theorem isDigit_of_mem_toDigits {char : Char} (member : char ∈ Nat.toDigits 10 number) :
    char.isDigit = true :=
  Nat.isDigit_of_mem_toDigits (by decide) (by decide) member

theorem isDigit_of_mem_padded {char : Char} (member : char ∈ padded 10 width number) :
    char.isDigit = true := by
  rcases List.mem_append.mp member with zero | digit
  · rw [List.eq_of_mem_replicate zero]
    rfl
  · exact isDigit_of_mem_toDigits digit

theorem ofDigitChars_padded (width number : Nat) :
    Nat.ofDigitChars 10 (padded 10 width number) 0 = number := by
  rw [padded, Nat.ofDigitChars_append, Nat.ofDigitChars_replicate_zero, Nat.mul_zero,
    Nat.ofDigitChars_ten_toDigits]

/-- A fixed number of decimals says the units that it rounds to. -/
theorem fixed_says {places : Nat} (positive : 0 < places) (value : Rat) :
    Says (fixed places value) places (units places value) := by
  have fits : units places value % 10 ^ places < 10 ^ places :=
    Nat.mod_lt _ (Nat.pow_pos (by decide))
  have length := length_padded positive fits
  refine ⟨_, _, rfl, Nat.toDigits_ne_nil, length, ?_, ?_⟩
  · intro char member
    rcases List.mem_append.mp member with whole | fraction
    · exact isDigit_of_mem_toDigits whole
    · exact isDigit_of_mem_padded fraction
  · calc Nat.ofDigitChars 10 (Nat.toDigits 10 (units places value / 10 ^ places) ++
          padded 10 places (units places value % 10 ^ places)) 0
      _ = 10 ^ places * (units places value / 10 ^ places) +
          units places value % 10 ^ places := by
        rw [Nat.ofDigitChars_append, Nat.ofDigitChars_ten_toDigits,
          Nat.ofDigitChars_eq_ofDigitChars_zero, length, ofDigitChars_padded]
      _ = units places value := Nat.div_add_mod _ _

end Decimal

namespace Report

open Rounding

/-- The mining time that a report tells, in thousandths of a second. -/
def milliseconds (nanoseconds : UInt64) : Nat := Decimal.units 3 (seconds nanoseconds)

variable {nanoseconds : UInt64}

theorem ofWord_nonneg (nanoseconds : UInt64) : 0 ≤ ofWord nanoseconds :=
  toDouble_nonneg (Nat.cast_nonneg _)

theorem seconds_nonneg (nanoseconds : UInt64) : 0 ≤ seconds nanoseconds :=
  toDouble_nonneg (div_nonneg (ofWord_nonneg nanoseconds) (by norm_num))

theorem ofWord_le (nanoseconds : UInt64) : ofWord nanoseconds ≤ 2 ^ (64 : Int) := by
  have largest : (nanoseconds.toNat : Rat) ≤ 2 ^ (64 : Int) := by
    exact_mod_cast nanoseconds.toNat_lt.le
  exact (isDouble_two_zpow 64).toDouble_le largest

theorem ofWord_error (nanoseconds : UInt64) :
    |ofWord nanoseconds - nanoseconds.toNat| ≤ 2 ^ 11 := by
  have largest : (nanoseconds.toNat : Rat) ≤ 2 ^ 64 := by exact_mod_cast nanoseconds.toNat_lt.le
  refine (toDouble_error (Nat.cast_nonneg nanoseconds.toNat)).trans ?_
  linarith

/-- The seconds are off by some thousand nanoseconds at most, though they were rounded twice. -/
theorem seconds_error (nanoseconds : UInt64) :
    |seconds nanoseconds * 10 ^ 9 - nanoseconds.toNat| ≤ 2 ^ 12 := by
  have largest : ofWord nanoseconds ≤ 2 ^ 64 := by exact_mod_cast ofWord_le nanoseconds
  have nonneg : 0 ≤ ofWord nanoseconds / 1000000000 :=
    div_nonneg (ofWord_nonneg nanoseconds) (by norm_num)
  have quotient := abs_le.mp (toDouble_error nonneg)
  have word := abs_le.mp (ofWord_error nanoseconds)
  rw [seconds]
  refine abs_le.mpr ⟨?_, ?_⟩
  · linarith [quotient.1, word.1]
  · linarith [quotient.2, word.2]

theorem seconds_mono {earlier later : UInt64} (order : earlier ≤ later) :
    seconds earlier ≤ seconds later := by
  have numbers : (earlier.toNat : Rat) ≤ later.toNat :=
    Nat.cast_le.mpr (UInt64.le_iff_toNat_le.mp order)
  exact toDouble_mono (div_le_div_of_nonneg_right (toDouble_mono numbers) (by norm_num))

/-- The time is told as the nearest number of milliseconds. -/
theorem milliseconds_eq_nearest (nanoseconds : UInt64) :
    (milliseconds nanoseconds : Int) = nearest (seconds nanoseconds * 1000) := by
  have nonneg : 0 ≤ nearest (seconds nanoseconds * 1000) :=
    (Int.floor_nonneg.mpr (mul_nonneg (seconds_nonneg nanoseconds) (by norm_num))).trans
      (floor_le_nearest _)
  have thousand : ((Nat.pow 10 3 : Nat) : Rat) = 1000 := by norm_num
  rw [milliseconds, Decimal.units, thousand]
  exact Int.toNat_of_nonneg nonneg

theorem milliseconds_mono {earlier later : UInt64} (order : earlier ≤ later) :
    milliseconds earlier ≤ milliseconds later := by
  have rounded : nearest (seconds earlier * 1000) ≤ nearest (seconds later * 1000) :=
    nearest_mono (mul_le_mul_of_nonneg_right (seconds_mono order) (by norm_num))
  rw [← milliseconds_eq_nearest, ← milliseconds_eq_nearest] at rounded
  exact Int.ofNat_le.mp rounded

theorem milliseconds_near (nanoseconds : UInt64) :
    |seconds nanoseconds * 1000 - milliseconds nanoseconds| ≤ 1 / 2 ∧
      (|seconds nanoseconds * 1000 - milliseconds nanoseconds| = 1 / 2 →
        Even (milliseconds nanoseconds)) := by
  obtain ⟨near, even⟩ := nearest_spec (seconds nanoseconds * 1000)
  rw [← milliseconds_eq_nearest, Int.cast_natCast] at near even
  exact ⟨near, fun tie => (Int.even_coe_nat _).mp (even tie)⟩

/-- Half a millisecond is lost to the last rounding, and the other two have little to add. -/
theorem milliseconds_error (nanoseconds : UInt64) :
    |(milliseconds nanoseconds : Int) * 10 ^ 6 - nanoseconds.toNat| ≤ 505000 := by
  have last := abs_le.mp (milliseconds_near nanoseconds).1
  have others := abs_le.mp (seconds_error nanoseconds)
  have sum : |(milliseconds nanoseconds : Rat) * 10 ^ 6 - nanoseconds.toNat| ≤ 505000 := by
    refine abs_le.mpr ⟨?_, ?_⟩
    · linarith [last.2, others.1]
    · linarith [last.1, others.2]
  have cast : (((milliseconds nanoseconds : Int) * 10 ^ 6 - nanoseconds.toNat : Int) : Rat) =
      milliseconds nanoseconds * 10 ^ 6 - nanoseconds.toNat := by
    push_cast
    rfl
  rw [← cast, ← Int.cast_abs] at sum
  exact Int.cast_le.mp (sum.trans (by norm_num))

/-- Two roundings do not move a whole number of milliseconds far enough for the third to find
another. -/
theorem milliseconds_of_whole {count : Nat} (whole : nanoseconds.toNat = count * 10 ^ 6) :
    milliseconds nanoseconds = count := by
  have others := abs_le.mp (seconds_error nanoseconds)
  have cast : (nanoseconds.toNat : Rat) = count * 10 ^ 6 := by exact_mod_cast whole
  rw [cast] at others
  have close : |seconds nanoseconds * 1000 - ((count : Int) : Rat)| < 1 / 2 := by
    rw [Int.cast_natCast]
    refine abs_lt.mpr ⟨?_, ?_⟩
    · linarith [others.1]
    · linarith [others.2]
  have nearest := eq_nearest close.le fun tie => absurd tie close.ne
  rw [← milliseconds_eq_nearest] at nearest
  exact (Int.ofNat_inj.mp nearest).symm

/-- A report says the mining time with three decimals.  It is rounded to a double as a word and as
a quotient, and the double to the nearest thousandth, ties to even.  What is said never goes back
as the time goes on, is right to half a millisecond and a little more, and is exact for whole
milliseconds. -/
theorem mining_time_told_faithfully :
    (∀ (agentId : UInt32) (tally : Tally), ∃ front text,
      line agentId tally = front ++ " | Mining time: " ++ text ++ "s" ∧
      Decimal.Says text 3 (milliseconds tally.miningTime)) ∧
    (∀ nanoseconds : UInt64,
      RoundsTo nanoseconds.toNat (ofWord nanoseconds) ∧
      RoundsTo (ofWord nanoseconds / 10 ^ 9) (seconds nanoseconds) ∧
      |seconds nanoseconds * 1000 - milliseconds nanoseconds| ≤ 1 / 2 ∧
      (|seconds nanoseconds * 1000 - milliseconds nanoseconds| = 1 / 2 →
        Even (milliseconds nanoseconds))) ∧
    (∀ earlier later : UInt64, earlier ≤ later → milliseconds earlier ≤ milliseconds later) ∧
    (∀ nanoseconds : UInt64,
      |(milliseconds nanoseconds : Int) * 10 ^ 6 - nanoseconds.toNat| ≤ 505000) ∧
    ∀ (nanoseconds : UInt64) (count : Nat),
      nanoseconds.toNat = count * 10 ^ 6 → milliseconds nanoseconds = count := by
  refine ⟨?_, ?_, fun _ _ => milliseconds_mono, milliseconds_error,
    fun _ _ => milliseconds_of_whole⟩
  · intro agentId tally
    exact ⟨_, _, rfl, Decimal.fixed_says (by decide) _⟩
  · intro nanoseconds
    have quotient := roundsTo_toDouble (ofWord nanoseconds / 1000000000)
    have billion : (1000000000 : Rat) = 10 ^ 9 := by norm_num
    rw [billion] at quotient
    exact ⟨roundsTo_toDouble _, quotient, milliseconds_near nanoseconds⟩

/-- Half a millisecond is told as one, for the double nearest to it is above it.  The largest word
of nanoseconds is told as if it were one more. -/
theorem times_told :
    milliseconds 500000 = 1 ∧ milliseconds 18446744073709551615 = 18446744073710 ∧
      milliseconds 500000 ≤ milliseconds 18446744073709551615 ∧
      milliseconds 1500000000 = 1500 :=
  ⟨by decide +kernel, by decide +kernel,
    mining_time_told_faithfully.2.2.1 500000 18446744073709551615 (by decide),
    mining_time_told_faithfully.2.2.2.2 1500000000 1500 (by decide)⟩

end Report

end MiningAgent
