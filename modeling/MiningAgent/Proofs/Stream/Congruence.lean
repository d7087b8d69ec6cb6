import MiningAgent.Generator
import Mathlib.Algebra.Order.Field.Basic
import Mathlib.Algebra.Order.Ring.Unbundled.Rat
import Mathlib.Data.Nat.ModEq
import Mathlib.Data.Rat.Cast.Order
import Mathlib.Data.Set.Function
import Mathlib.Tactic.NormNum
import Mathlib.Tactic.Positivity

/-!
# Draws as numbers

The words of the generator stand for numbers below `2 ^ 48`.  On these numbers a draw is an
affine map with an odd multiplier, so streams that differ once differ for ever.
-/

namespace MiningAgent.Generator

variable {stream other : Generator}

theorem state_eq_iff : stream.state = other.state ↔ stream = other := by
  cases stream
  cases other
  simp

theorem eq_of_toNat_eq (same : stream.state.toNat = other.state.toNat) : stream = other :=
  state_eq_iff.mp (UInt64.toNat_inj.mp same)

/-- The state fits the 48 bits that a draw keeps. -/
def Fits (stream : Generator) : Prop := stream.state.toNat < 2 ^ 48

theorem next_toNat (stream : Generator) :
    stream.next.state.toNat = (0x5DEECE66D * stream.state.toNat + 0xB) % 2 ^ 48 := by
  have mask : stateMask.toNat = 2 ^ 48 - 1 := by decide
  have below : 2 ^ 48 ∣ 2 ^ 64 := Nat.pow_dvd_pow 2 (by omega)
  rw [next, UInt64.toNat_and, mask, Nat.and_two_pow_sub_one_eq_mod, UInt64.toNat_add,
    UInt64.toNat_mul, Nat.mod_add_mod, Nat.mod_mod_of_dvd _ below]
  rfl

theorem next_fits (stream : Generator) : stream.next.Fits := by
  rw [Fits, next_toNat]
  exact Nat.mod_lt _ (by norm_num)

theorem mapsTo_next : Set.MapsTo next {stream | stream.Fits} {stream | stream.Fits} :=
  fun stream _ => next_fits stream

theorem iterate_fits (fits : stream.Fits) (count : Nat) : (next^[count] stream).Fits :=
  mapsTo_next.iterate count fits

/-- The multiplier is odd, so it can be cancelled modulo a power of two. -/
theorem injOn_next : Set.InjOn next {stream | stream.Fits} := by
  intro stream fits other otherFits same
  have equal : 0x5DEECE66D * stream.state.toNat + 0xB ≡
      0x5DEECE66D * other.state.toNat + 0xB [MOD 2 ^ 48] := by
    rw [Nat.ModEq, ← next_toNat, ← next_toNat, same]
  have coprime : Nat.gcd (2 ^ 48) 0x5DEECE66D = 1 := Nat.Coprime.pow_left 48 (by decide)
  have cancelled := Nat.ModEq.cancel_left_of_coprime coprime (Nat.ModEq.add_right_cancel' _ equal)
  exact eq_of_toNat_eq (cancelled.eq_of_lt_of_lt fits otherFits)

/-- Two streams are equal after any number of draws exactly if they were so before. -/
theorem iterate_eq_iff (fits : stream.Fits) (otherFits : other.Fits) (count : Nat) :
    next^[count] stream = next^[count] other ↔ stream = other :=
  (injOn_next.iterate mapsTo_next count).eq_iff fits otherFits

theorem ofSeed_toNat (seed : UInt64) :
    (ofSeed seed).state.toNat = seed.toNat % 2 ^ 32 * 2 ^ 16 + 0x330E := by
  have low : (seed &&& 0xFFFFFFFF).toNat = seed.toNat % 2 ^ 32 := by
    rw [UInt64.toNat_and]
    exact Nat.and_two_pow_sub_one_eq_mod _ 32
  have shifted : ((seed &&& 0xFFFFFFFF) <<< 16).toNat = seed.toNat % 2 ^ 32 * 2 ^ 16 := by
    have amount : (16 : UInt64).toNat % 64 = 16 := by decide
    rw [UInt64.toNat_shiftLeft, low, amount, Nat.shiftLeft_eq]
    exact Nat.mod_eq_of_lt (by omega)
  rw [ofSeed, UInt64.toNat_or, shifted, Nat.mul_comm]
  exact (Nat.two_pow_add_eq_or_of_lt (by decide) _).symm

theorem ofSeed_fits (seed : UInt64) : (ofSeed seed).Fits := by
  rw [Fits, ofSeed_toNat]
  omega

/-- A seed counts with its low 32 bits only. -/
theorem ofSeed_eq_iff (seed other : UInt64) :
    ofSeed seed = ofSeed other ↔ seed.toNat ≡ other.toNat [MOD 2 ^ 32] := by
  constructor
  · intro same
    have equal := congrArg (fun stream : Generator => stream.state.toNat) same
    simp only [ofSeed_toNat] at equal
    rw [Nat.ModEq]
    omega
  · intro congruent
    apply eq_of_toNat_eq
    rw [ofSeed_toNat, ofSeed_toNat, congruent]

/-- The draw at a position, the first one being at position zero. -/
def draw (stream : Generator) (position : Nat) : Generator := next^[position + 1] stream

theorem draw_fits (stream : Generator) (position : Nat) : (stream.draw position).Fits := by
  rw [draw, Function.iterate_succ_apply']
  exact next_fits _

theorem uniform_eq (stream : Generator) : stream.uniform = (stream.state.toNat : Rat) / 2 ^ 48 := by
  norm_num [uniform]

theorem uniform_eq_iff : stream.uniform = other.uniform ↔ stream = other := by
  rw [uniform_eq, uniform_eq, div_left_inj' (by norm_num), Nat.cast_inj, UInt64.toNat_inj,
    state_eq_iff]

theorem uniform_nonneg (stream : Generator) : 0 ≤ stream.uniform := by
  rw [uniform_eq]
  positivity

theorem uniform_lt_one (fits : stream.Fits) : stream.uniform < 1 := by
  rw [uniform_eq, div_lt_one (by norm_num)]
  exact_mod_cast fits

end MiningAgent.Generator
