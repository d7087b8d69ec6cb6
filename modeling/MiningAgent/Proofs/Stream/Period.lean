import MiningAgent.Proofs.Stream.Congruence
import Mathlib.Dynamics.PeriodicPts.Defs
import Mathlib.NumberTheory.Multiplicity
import Mathlib.RingTheory.Coprime.Lemmas

/-!
# The period of a stream

The state after some draws has a closed form, in which the powers of the multiplier are
added up.  The multiplier is one more than a multiple of four and the increment is odd, so a
stream runs through all 48-bit states before it comes to one of them again.
-/

namespace MiningAgent.Generator

open Finset Function

variable {stream other : Generator}

/-- The sum of the powers of the multiplier with exponents below `count`. -/
def powers (count : Nat) : Int := ∑ exponent ∈ range count, (0x5DEECE66D : Int) ^ exponent

theorem powers_succ (count : Nat) : powers (count + 1) = 0x5DEECE66D * powers count + 1 :=
  geom_sum_succ

theorem powers_mul (count : Nat) : powers count * (0x5DEECE66D - 1) = 0x5DEECE66D ^ count - 1 :=
  geom_sum_mul _ _

/-- How far some draws take a state. -/
theorem iterate_modEq (stream : Generator) (count : Nat) :
    ((next^[count] stream).state.toNat : Int) ≡
      stream.state.toNat + powers count * (0x5DEECE66C * stream.state.toNat + 0xB)
      [ZMOD 2 ^ 48] := by
  induction count with
  | zero => simp [powers]
  | succ count hypothesis =>
      have step : ((next^[count + 1] stream).state.toNat : Int) ≡
          0x5DEECE66D * (next^[count] stream).state.toNat + 0xB [ZMOD 2 ^ 48] := by
        rw [iterate_succ_apply', next_toNat]
        push_cast
        exact Int.mod_modEq _ _
      have moved := step.trans ((hypothesis.mul_left 0x5DEECE66D).add_right 0xB)
      rw [powers_succ]
      convert moved using 1
      ring

/-- Two divides the sum as often as the number of its terms, because the multiplier is one
more than a multiple of four. -/
theorem emultiplicity_powers (count : Nat) :
    emultiplicity 2 (powers count) = emultiplicity (2 : Int) count := by
  have lifted := Int.two_pow_sub_pow' (x := 0x5DEECE66D) (y := 1) count (by decide) (by decide)
  have finite : emultiplicity (2 : Int) (0x5DEECE66D - 1) ≠ ⊤ :=
    finiteMultiplicity_iff_emultiplicity_ne_top.mp (Int.finiteMultiplicity_iff.mpr (by decide))
  rw [one_pow, ← powers_mul, mul_comm, emultiplicity_mul Int.prime_two] at lifted
  exact WithTop.add_left_cancel finite lifted

theorem two_pow_dvd_powers_iff (bits count : Nat) :
    (2 : Int) ^ bits ∣ powers count ↔ 2 ^ bits ∣ count := by
  rw [pow_dvd_iff_le_emultiplicity, emultiplicity_powers, ← pow_dvd_iff_le_emultiplicity]
  exact_mod_cast Int.natCast_dvd_natCast

theorem iterate_eq_self_iff_modEq (fits : stream.Fits) (count : Nat) :
    next^[count] stream = stream ↔
      ((next^[count] stream).state.toNat : Int) ≡ stream.state.toNat [ZMOD 2 ^ 48] := by
  constructor
  · intro same
    rw [same]
  · intro congruent
    have numbers := Int.natCast_modEq_iff.mp (by exact_mod_cast congruent)
    exact eq_of_toNat_eq (numbers.eq_of_lt_of_lt (iterate_fits fits count) fits)

/-- A stream comes back to its state after each multiple of `2 ^ 48` draws and at no other
time. -/
theorem iterate_eq_self_iff (fits : stream.Fits) (count : Nat) :
    next^[count] stream = stream ↔ 2 ^ 48 ∣ count := by
  have odd : IsCoprime ((2 : Int) ^ 48) (0x5DEECE66C * stream.state.toNat + 0xB) :=
    IsCoprime.pow_left ⟨-(0x2EF767336 * stream.state.toNat + 5), 1, by ring⟩
  have moved := iterate_modEq stream count
  calc next^[count] stream = stream
    _ ↔ ((next^[count] stream).state.toNat : Int) ≡ stream.state.toNat [ZMOD 2 ^ 48] :=
        iterate_eq_self_iff_modEq fits count
    _ ↔ (stream.state.toNat : Int) +
          powers count * (0x5DEECE66C * stream.state.toNat + 0xB) ≡
            stream.state.toNat [ZMOD 2 ^ 48] := ⟨moved.symm.trans, moved.trans⟩
    _ ↔ (2 : Int) ^ 48 ∣ powers count * (0x5DEECE66C * stream.state.toNat + 0xB) :=
        Int.add_modEq_left_iff
    _ ↔ (2 : Int) ^ 48 ∣ powers count :=
        ⟨odd.dvd_of_dvd_mul_right, fun divides => divides.mul_right _⟩
    _ ↔ 2 ^ 48 ∣ count := two_pow_dvd_powers_iff 48 count

theorem minimalPeriod_next (fits : stream.Fits) : minimalPeriod next stream = 2 ^ 48 := by
  apply Nat.dvd_antisymm
  · exact isPeriodicPt_iff_minimalPeriod_dvd.mp ((iterate_eq_self_iff fits _).mpr dvd_rfl)
  · exact (iterate_eq_self_iff fits _).mp iterate_minimalPeriod

/-- A state at one time is the state at another exactly if the times are whole periods
apart. -/
theorem iterate_eq_iterate_iff (fits : stream.Fits) (first second : Nat) :
    next^[first] stream = next^[second] stream ↔ first ≡ second [MOD 2 ^ 48] := by
  wlog order : first ≤ second generalizing first second
  · rw [eq_comm, Nat.ModEq.comm]
    exact this second first (Nat.le_of_not_le order)
  have later : next^[second] stream = next^[second - first] (next^[first] stream) := by
    rw [← iterate_add_apply, Nat.sub_add_cancel order]
  rw [later, eq_comm, iterate_eq_self_iff (iterate_fits fits first), Nat.modEq_iff_dvd' order]

/-- All states that fit come up within a period, whenever it begins. -/
theorem exists_iterate_eq (fits : stream.Fits) (start : Nat) {value : Nat}
    (small : value < 2 ^ 48) :
    ∃ offset < 2 ^ 48, (next^[start + offset] stream).state.toNat = value := by
  let visit (offset : Fin (2 ^ 48)) : Fin (2 ^ 48) :=
    ⟨(next^[start + offset] stream).state.toNat, iterate_fits fits _⟩
  have injective : Injective visit := by
    intro first second same
    have states := eq_of_toNat_eq (Fin.mk.inj_iff.mp same)
    have times := (iterate_eq_iterate_iff fits _ _).mp states
    exact Fin.ext ((times.add_left_cancel' start).eq_of_lt_of_lt first.isLt second.isLt)
  obtain ⟨offset, found⟩ := Finite.surjective_of_injective injective ⟨value, small⟩
  exact ⟨offset, offset.isLt, congrArg Fin.val found⟩

theorem draw_eq_draw_iff (stream : Generator) (first second : Nat) :
    stream.draw first = stream.draw second ↔ first ≡ second [MOD 2 ^ 48] :=
  iterate_eq_iterate_iff (next_fits stream) first second

end MiningAgent.Generator
