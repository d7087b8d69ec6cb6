import MiningAgent.Discovery
import MiningAgent.Proofs.Rounding.Doubles
import MiningAgent.Proofs.Stream.Period

/-!
# Nonces

A draw is scaled to the range of a word, rounded and cut off.  Rounding may lift a number over
the next integer, so the nonce is not always the exact product cut off.  But nonces rise with
the states they are drawn from, and only the largest word is never one of them.
-/

namespace MiningAgent.Discovery

open Rounding Generator

/-- The draw scaled to the range of a nonce, before it is rounded. -/
def exactNonce (drawn : Generator) : Rat := drawn.uniform * 4294967295

variable {drawn other : Generator}

theorem exactNonce_eq (drawn : Generator) :
    exactNonce drawn = drawn.state.toNat * (2 ^ 32 - 1) / 2 ^ 48 := by
  rw [exactNonce, uniform_eq]
  ring

theorem exactNonce_nonneg (drawn : Generator) : 0 ≤ exactNonce drawn :=
  mul_nonneg (uniform_nonneg drawn) (by norm_num)

/-- A double between all products and the largest word. -/
theorem isDouble_ceiling : IsDouble ((2 ^ 49 - 2 ^ 17 - 1 : Int) / 2 ^ 17 : Rat) := by
  refine ⟨2 ^ 49 - 2 ^ 17 - 1, -17, by norm_num, ?_⟩
  rw [zpow_neg, ← div_eq_mul_inv]
  norm_num

theorem exactNonce_le (fits : drawn.Fits) :
    exactNonce drawn ≤ (2 ^ 49 - 2 ^ 17 - 1 : Int) / 2 ^ 17 := by
  have largest : (drawn.state.toNat : Rat) + 1 ≤ 2 ^ 48 := by exact_mod_cast fits
  rw [exactNonce_eq]
  push_cast
  linarith

theorem floor_toDouble_nonneg (drawn : Generator) : 0 ≤ (toDouble (exactNonce drawn)).floor :=
  Int.floor_nonneg.mpr (toDouble_nonneg (exactNonce_nonneg drawn))

theorem floor_toDouble_lt (fits : drawn.Fits) :
    (toDouble (exactNonce drawn)).floor < 2 ^ 32 - 1 := by
  have bound := isDouble_ceiling.toDouble_le (exactNonce_le fits)
  refine Int.floor_lt.mpr (bound.trans_lt ?_)
  norm_num

/-- The word holds the product as it was rounded and cut off. -/
theorem nonceOfUniform_toNat (fits : drawn.Fits) :
    ((nonceOfUniform drawn.uniform).toNat : Int) = (toDouble (exactNonce drawn)).floor := by
  have low := floor_toDouble_nonneg drawn
  have high := floor_toDouble_lt fits
  have word : (nonceOfUniform drawn.uniform).toNat =
      (toDouble (exactNonce drawn)).floor.toNat % 2 ^ 32 := UInt32.toNat_ofNat'
  rw [word]
  omega

theorem isDouble_of_le {number : Int} (low : 0 ≤ number) (high : number ≤ 2 ^ 32) :
    IsDouble number :=
  isDouble_intCast (by rw [abs_of_nonneg low]; omega)

theorem floor_toDouble_cases (fits : drawn.Fits) :
    (toDouble (exactNonce drawn)).floor = (exactNonce drawn).floor ∨
      (toDouble (exactNonce drawn)).floor = (exactNonce drawn).floor + 1 := by
  have nonneg : 0 ≤ (exactNonce drawn).floor := Int.floor_nonneg.mpr (exactNonce_nonneg drawn)
  have small : (exactNonce drawn).floor < 2 ^ 32 := by
    refine Int.floor_lt.mpr ((exactNonce_le fits).trans_lt ?_)
    norm_num
  have low := (isDouble_of_le nonneg (by omega)).le_toDouble (Int.floor_le (exactNonce drawn))
  have next : exactNonce drawn ≤ ((exactNonce drawn).floor + 1 : Int) := by
    push_cast
    exact (Int.lt_floor_add_one (exactNonce drawn)).le
  have high := (isDouble_of_le (by omega) (by omega)).toDouble_le next
  have atLeast : (exactNonce drawn).floor ≤ (toDouble (exactNonce drawn)).floor :=
    Int.le_floor.mpr low
  have atMost : (toDouble (exactNonce drawn)).floor ≤ (exactNonce drawn).floor + 1 := by
    exact_mod_cast (Int.floor_le (toDouble (exactNonce drawn))).trans high
  omega

theorem exactNonce_mono (order : drawn.state ≤ other.state) :
    exactNonce drawn ≤ exactNonce other := by
  have numbers : (drawn.state.toNat : Rat) ≤ other.state.toNat := by
    exact_mod_cast UInt64.le_iff_toNat_le.mp order
  rw [exactNonce_eq, exactNonce_eq]
  linarith

theorem nonceOfUniform_mono (fits : drawn.Fits) (otherFits : other.Fits)
    (order : drawn.state ≤ other.state) :
    nonceOfUniform drawn.uniform ≤ nonceOfUniform other.uniform := by
  have floors : (toDouble (exactNonce drawn)).floor ≤ (toDouble (exactNonce other)).floor :=
    Int.floor_mono (toDouble_mono (exactNonce_mono order))
  rw [← nonceOfUniform_toNat fits, ← nonceOfUniform_toNat otherFits] at floors
  exact UInt32.le_iff_toNat_le.mpr (Int.ofNat_le.mp floors)

/-- The least state whose product is not below `value`. -/
def leastState (value : Nat) : Nat := (value * 2 ^ 48 + (2 ^ 32 - 2)) / (2 ^ 32 - 1)

theorem leastState_lt {value : Nat} (small : value < 2 ^ 32 - 1) : leastState value < 2 ^ 48 := by
  rw [leastState]
  omega

/-- The product of this state exceeds the value so little that rounding cannot make up a
half. -/
theorem floor_toDouble_leastState {value : Nat} (small : value < 2 ^ 32 - 1)
    (state : drawn.state.toNat = leastState value) :
    (toDouble (exactNonce drawn)).floor = value := by
  have bounds : value * 2 ^ 48 ≤ leastState value * 4294967295 ∧
      leastState value * 4294967295 < value * 2 ^ 48 + 2 ^ 32 := by
    rw [leastState]
    omega
  have reached : (value : Rat) * 2 ^ 48 ≤ leastState value * 4294967295 := by
    exact_mod_cast bounds.1
  have exceeded : (leastState value : Rat) * 4294967295 < value * 2 ^ 48 + 2 ^ 32 := by
    exact_mod_cast bounds.2
  have low : ((value : Int) : Rat) ≤ exactNonce drawn := by
    rw [exactNonce_eq, state, le_div_iff₀ (by norm_num)]
    push_cast
    linarith
  have high : exactNonce drawn ≤ value + 1 / 2 := by
    rw [exactNonce_eq, state, div_le_iff₀ (by norm_num)]
    linarith
  have half : IsDouble (value + 1 / 2 : Rat) := by
    refine ⟨2 * value + 1, -1, ?_, ?_⟩
    · rw [abs_of_nonneg (by omega)]
      omega
    · push_cast
      ring
  have lowRounded := (isDouble_of_le (by omega) (by omega)).le_toDouble low
  have highRounded := half.toDouble_le high
  refine Int.floor_eq_iff.mpr ⟨lowRounded, highRounded.trans_lt ?_⟩
  push_cast
  linarith

/-- Whatever its seed, a stream comes to every nonce but the largest word within its period. -/
theorem exists_nonce_eq (seed : UInt64) {value : UInt32} (small : value < 4294967295) :
    ∃ position < 2 ^ 48, (drawNonce (next^[position] (ofSeed seed))).1 = value := by
  have smallNumber : value.toNat < 2 ^ 32 - 1 := UInt32.lt_iff_toNat_lt.mp small
  obtain ⟨position, within, state⟩ :=
    exists_iterate_eq (ofSeed_fits seed) 1 (leastState_lt smallNumber)
  rw [Nat.add_comm, Function.iterate_succ_apply'] at state
  have word := nonceOfUniform_toNat (next_fits (next^[position] (ofSeed seed)))
  rw [floor_toDouble_leastState smallNumber state] at word
  exact ⟨position, within, UInt32.toNat_inj.mp (Int.ofNat_inj.mp word)⟩

/-- The nonce drawn with a state is the exact product of the draw and the largest word,
rounded to double precision and cut off.  That is the product cut off, or one more where
rounding reaches the next integer.  Nonces rise with the states.  The largest word is none
of them, and all others are. -/
theorem nonces_scale_states :
    (∀ stream : Generator,
      exactNonce stream.next = stream.next.state.toNat * (2 ^ 32 - 1) / 2 ^ 48 ∧
      RoundsTo (exactNonce stream.next) (toDouble (exactNonce stream.next)) ∧
      ((drawNonce stream).1.toNat : Int) = (toDouble (exactNonce stream.next)).floor ∧
      ((drawNonce stream).1.toNat = (exactNonce stream.next).floor ∨
        (drawNonce stream).1.toNat = (exactNonce stream.next).floor + 1 ∧
          (exactNonce stream.next).floor + 1 ≤ toDouble (exactNonce stream.next)) ∧
      (drawNonce stream).1 < 4294967295) ∧
    (∀ stream other : Generator, stream.next.state ≤ other.next.state →
      (drawNonce stream).1 ≤ (drawNonce other).1) ∧
    ∀ (seed : UInt64) (value : UInt32), value < 4294967295 →
      ∃ position < 2 ^ 48, (drawNonce (next^[position] (ofSeed seed))).1 = value := by
  refine ⟨fun stream => ?_, ?_, fun seed _ small => exists_nonce_eq seed small⟩
  · have fits := next_fits stream
    have word : ((drawNonce stream).1.toNat : Int) = (toDouble (exactNonce stream.next)).floor :=
      nonceOfUniform_toNat fits
    refine ⟨exactNonce_eq stream.next, roundsTo_toDouble _, word, ?_, ?_⟩
    · rw [word]
      refine (floor_toDouble_cases fits).imp_right fun above => ⟨above, ?_⟩
      exact_mod_cast Int.le_floor.mp above.ge
    · refine UInt32.lt_iff_toNat_lt.mpr (Int.ofNat_lt.mp ?_)
      rw [word]
      exact floor_toDouble_lt fits
  · intro stream other order
    exact nonceOfUniform_mono (next_fits stream) (next_fits other) order

/-- Of two neighbouring states, the first has a product a little below an integer, and the
second one so little below the next that it is rounded up to it. -/
theorem nonces_of_neighbours :
    (⟨128372516989609⟩ : Generator).next.state ≤ (⟨93052245982734⟩ : Generator).next.state ∧
      (exactNonce (⟨93052245982734⟩ : Generator).next).floor = 65535 ∧
      (drawNonce ⟨128372516989609⟩).1 = 65535 ∧ (drawNonce ⟨93052245982734⟩).1 = 65536 ∧
      (drawNonce ⟨128372516989609⟩).1 ≤ (drawNonce ⟨93052245982734⟩).1 ∧
      ∃ position < 2 ^ 48, (drawNonce (next^[position] (ofSeed 101))).1 = 65536 :=
  ⟨by decide, by decide +kernel, by decide +kernel, by decide +kernel,
    nonces_scale_states.2.1 _ _ (by decide), nonces_scale_states.2.2 101 65536 (by decide)⟩

end MiningAgent.Discovery
