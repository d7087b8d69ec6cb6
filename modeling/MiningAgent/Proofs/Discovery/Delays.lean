import MiningAgent.Discovery
import MiningAgent.Proofs.Rounding.Doubles
import MiningAgent.Proofs.Stream.Congruence

/-!
# Delays

A delay comes about by four roundings, a change of sign, two quotients and a cut at the largest
word.  None of these steps turns the order of its arguments around in an unexpected way, so
delays grow with the draw and with the difficulty and shrink with the hashrate.  All numbers on
the way are finite.  What the logarithm has to do for this is little.
-/

namespace MiningAgent.Discovery

open Rounding

/-- What is needed of a logarithm: it rises up to zero at one, and stays above -34 where
survival probabilities lie. -/
structure IsLogarithm (ln : Rat → Rat) : Prop where
  mono : ∀ smaller larger, 0 < smaller → smaller ≤ larger → larger ≤ 1 → ln smaller ≤ ln larger
  one : ln 1 = 0
  bounded : ∀ survival, 1 / 2 ^ 48 ≤ survival → survival ≤ 1 → -34 ≤ ln survival ∧ ln survival ≤ 0

/-- The double of a number, unless it is too large for one. -/
def finite? (value : Rat) : Option Rat :=
  if |toDouble value| < 2 ^ 1024 then some (toDouble value) else none

/-- A rounded quotient, unless it is infinite or not a number. -/
def quotient? (numerator denominator : Rat) : Option Rat :=
  if denominator = 0 then none else finite? (numerator / denominator)

/-- The logarithm of a number that has one, unless it is infinite. -/
def logarithm? (ln : Rat → Rat) (argument : Rat) : Option Rat :=
  if 0 < argument ∧ |ln argument| < 2 ^ 1024 then some (ln argument) else none

/-- The delay computed step by step for a draw, given up as soon as a number is infinite or
none at all. -/
def finiteDelay? (ln : Rat → Rat) (hashrate difficulty : UInt64) (uniform : Rat) :
    Option UInt64 := do
  let hashes ← finite? hashrate.toNat
  let hashesPerBlock ← finite? difficulty.toNat
  let rate ← quotient? hashes hashesPerBlock
  let survival ← finite? (1 - uniform)
  let logarithm ← logarithm? ln survival
  let seconds ← quotient? (-logarithm) rate
  let nanoseconds ← finite? (seconds * 1000000000)
  return saturate nanoseconds

variable {ln : Rat → Rat} {hashrate difficulty : UInt64}

theorem one_le_toNat {word : UInt64} (positive : word ≠ 0) : 1 ≤ word.toNat := by
  have different : word.toNat ≠ 0 := fun zero => positive (UInt64.toNat_inj.mp zero)
  omega

theorem isDouble_one : IsDouble 1 := by
  simpa using isDouble_two_zpow 0

/-- A positive word is rounded to a number from one to `2 ^ 64`, which the largest words
reach. -/
theorem ofWord_bounds {word : UInt64} (positive : word ≠ 0) :
    1 ≤ ofWord word ∧ ofWord word ≤ 2 ^ 64 := by
  have low : (1 : Rat) ≤ word.toNat := by exact_mod_cast one_le_toNat positive
  have high : (word.toNat : Rat) ≤ 2 ^ (64 : Int) := by exact_mod_cast word.toNat_lt.le
  exact ⟨isDouble_one.le_toDouble low, (isDouble_two_zpow 64).toDouble_le high⟩

theorem ofWord_mono {smaller larger : UInt64} (order : smaller ≤ larger) :
    ofWord smaller ≤ ofWord larger := by
  apply toDouble_mono
  exact_mod_cast UInt64.le_iff_toNat_le.mp order

theorem rate_bounds (hashes : hashrate ≠ 0) (blocks : difficulty ≠ 0) :
    1 / 2 ^ 64 ≤ rate hashrate difficulty ∧ rate hashrate difficulty ≤ 2 ^ 64 := by
  obtain ⟨hashLow, hashHigh⟩ := ofWord_bounds hashes
  obtain ⟨blockLow, blockHigh⟩ := ofWord_bounds blocks
  have lowest : IsDouble (1 / 2 ^ 64) := by simpa using isDouble_two_zpow (-64)
  have highest : IsDouble (2 ^ 64) := isDouble_two_zpow 64
  constructor
  · exact lowest.le_toDouble (div_le_div₀ (by linarith) hashLow (by linarith) blockHigh)
  · exact highest.toDouble_le ((div_le_self (by linarith) blockLow).trans hashHigh)

theorem rate_pos (hashes : hashrate ≠ 0) (blocks : difficulty ≠ 0) : 0 < rate hashrate difficulty :=
  lt_of_lt_of_le (by norm_num) (rate_bounds hashes blocks).1

/-- The rate rises with the hashrate and falls with the difficulty. -/
theorem rate_mono {lessHashrate lessDifficulty : UInt64} (hashes : lessHashrate ≤ hashrate)
    (blocks : lessDifficulty ≤ difficulty) (positive : lessDifficulty ≠ 0) :
    rate lessHashrate difficulty ≤ rate hashrate lessDifficulty := by
  have nonneg : 0 ≤ ofWord hashrate := toDouble_nonneg (Nat.cast_nonneg _)
  have blockLow := (ofWord_bounds positive).1
  exact toDouble_mono (div_le_div₀ nonneg (ofWord_mono hashes) (by linarith) (ofWord_mono blocks))

/-- The delay in seconds, rounded. -/
def seconds (ln : Rat → Rat) (hashrate difficulty : UInt64) (survival : Rat) : Rat :=
  toDouble (-(ln survival) / rate hashrate difficulty)

theorem exactDelay_eq (ln : Rat → Rat) (hashrate difficulty : UInt64) (survival : Rat) :
    exactDelay ln hashrate difficulty survival =
      toDouble (seconds ln hashrate difficulty survival * 1000000000) :=
  rfl

/-- The draws that a stream can give, seen as the probability that no block has been found. -/
theorem survival_bounds {number : Nat} (small : number < 2 ^ 48) :
    1 / 2 ^ 48 ≤ 1 - (number : Rat) / 2 ^ 48 ∧ 1 - (number : Rat) / 2 ^ 48 ≤ 1 := by
  have room : (number : Rat) + 1 ≤ 2 ^ 48 := by exact_mod_cast small
  have nonneg : (0 : Rat) ≤ number := Nat.cast_nonneg number
  constructor
  · rw [div_le_iff₀ (by norm_num), sub_mul, div_mul_cancel₀ _ (by norm_num)]
    linarith
  · linarith [div_nonneg nonneg (by norm_num : (0 : Rat) ≤ 2 ^ 48)]

/-- The difference from one loses nothing by rounding. -/
theorem isDouble_survival {number : Nat} (small : number < 2 ^ 48) :
    IsDouble (1 - (number : Rat) / 2 ^ 48) := by
  refine ⟨2 ^ 48 - number, -48, ?_, ?_⟩
  · rw [abs_of_nonneg (by omega)]
    omega
  · push_cast
    rw [zpow_neg, sub_mul]
    norm_num
    ring

variable {survival : Rat}

theorem seconds_bounds (log : IsLogarithm ln) (hashes : hashrate ≠ 0) (blocks : difficulty ≠ 0)
    (low : 1 / 2 ^ 48 ≤ survival) (high : survival ≤ 1) :
    0 ≤ seconds ln hashrate difficulty survival ∧
      seconds ln hashrate difficulty survival ≤ 2 ^ 70 := by
  obtain ⟨deep, negative⟩ := log.bounded survival low high
  obtain ⟨rateLow, _⟩ := rate_bounds hashes blocks
  have positive := rate_pos hashes blocks
  have longest : IsDouble (2 ^ 70) := isDouble_two_zpow 70
  constructor
  · exact toDouble_nonneg (div_nonneg (by linarith) positive.le)
  · refine longest.toDouble_le ?_
    rw [div_le_iff₀ positive]
    linarith

theorem exactDelay_nonneg (log : IsLogarithm ln) (hashes : hashrate ≠ 0)
    (blocks : difficulty ≠ 0) (low : 1 / 2 ^ 48 ≤ survival) (high : survival ≤ 1) :
    0 ≤ exactDelay ln hashrate difficulty survival := by
  have nonneg := (seconds_bounds log hashes blocks low high).1
  rw [exactDelay_eq]
  exact toDouble_nonneg (by linarith)

theorem exactDelay_one (log : IsLogarithm ln) (hashrate difficulty : UInt64) :
    exactDelay ln hashrate difficulty 1 = 0 := by
  simp [exactDelay_eq, seconds, log.one]

/-- Delays before the cut keep the order of their arguments. -/
theorem exactDelay_mono (log : IsLogarithm ln) {lessHashrate lessDifficulty : UInt64}
    {lessSurvival : Rat} (rated : lessHashrate ≠ 0) (hashes : lessHashrate ≤ hashrate)
    (positive : lessDifficulty ≠ 0) (blocks : lessDifficulty ≤ difficulty)
    (low : 1 / 2 ^ 48 ≤ lessSurvival) (order : lessSurvival ≤ survival) (high : survival ≤ 1) :
    exactDelay ln hashrate lessDifficulty survival ≤
      exactDelay ln lessHashrate difficulty lessSurvival := by
  have lessPositive : 0 < lessSurvival := lt_of_lt_of_le (by norm_num) low
  have logs := log.mono lessSurvival survival lessPositive order high
  have negative := (log.bounded lessSurvival low (order.trans high)).2
  have slower := rate_mono hashes blocks positive
  have slowest : 0 < rate lessHashrate difficulty := by
    refine rate_pos rated fun zero => positive ?_
    rw [zero] at blocks
    exact UInt64.le_zero_iff.mp blocks
  have longer : seconds ln hashrate lessDifficulty survival ≤
      seconds ln lessHashrate difficulty lessSurvival :=
    toDouble_mono (div_le_div₀ (by linarith) (by linarith) slowest slower)
  rw [exactDelay_eq, exactDelay_eq]
  exact toDouble_mono (by linarith)

theorem saturate_toNat {nanoseconds : Rat} (nonneg : 0 ≤ nanoseconds) :
    ((saturate nanoseconds).toNat : Int) = min nanoseconds.floor (2 ^ 64 - 1) := by
  have floorNonneg : 0 ≤ nanoseconds.floor := Int.floor_nonneg.mpr nonneg
  unfold saturate
  split_ifs with large
  · have reached : 2 ^ 64 ≤ nanoseconds.floor := Int.le_floor.mpr (by exact_mod_cast large)
    rw [min_eq_right (by omega)]
    rfl
  · have below : nanoseconds.floor < 2 ^ 64 := Int.floor_lt.mpr (by exact_mod_cast not_le.mp large)
    have word : (UInt64.ofNat nanoseconds.floor.toNat).toNat =
        nanoseconds.floor.toNat % 2 ^ 64 := UInt64.toNat_ofNat'
    rw [min_eq_left (by omega), word]
    omega

theorem saturate_mono {shorter longer : Rat} (nonneg : 0 ≤ shorter) (order : shorter ≤ longer) :
    saturate shorter ≤ saturate longer := by
  have floors : shorter.floor ≤ longer.floor := Int.floor_mono order
  have shorterWord := saturate_toNat nonneg
  have longerWord := saturate_toNat (nonneg.trans order)
  refine UInt64.le_iff_toNat_le.mpr (Int.ofNat_le.mp ?_)
  rw [shorterWord, longerWord]
  exact min_le_min_right _ floors

theorem finite?_of_le {value : Rat} (bits : Int) (few : bits < 1024) (nonneg : 0 ≤ value)
    (small : value ≤ 2 ^ bits) : finite? value = some (toDouble value) := by
  have bounded : toDouble value ≤ 2 ^ bits := (isDouble_two_zpow bits).toDouble_le small
  have finite : |toDouble value| < 2 ^ 1024 := by
    rw [abs_of_nonneg (toDouble_nonneg nonneg)]
    refine bounded.trans_lt ?_
    exact_mod_cast zpow_lt_zpow_right₀ (by norm_num : (1 : Rat) < 2) few
  rw [finite?, if_pos finite]

/-- No number on the way to a delay is infinite or none at all. -/
theorem finiteDelay?_rated (log : IsLogarithm ln) (hashes : hashrate ≠ 0)
    (blocks : difficulty ≠ 0) {uniform : Rat} (low : 1 / 2 ^ 48 ≤ 1 - uniform)
    (high : 1 - uniform ≤ 1) (double : IsDouble (1 - uniform)) :
    finiteDelay? ln hashrate difficulty uniform =
      some (saturate (exactDelay ln hashrate difficulty (1 - uniform))) := by
  generalize same : 1 - uniform = survival at low high double
  obtain ⟨deep, negative⟩ := log.bounded survival low high
  obtain ⟨hashLow, hashHigh⟩ := ofWord_bounds hashes
  obtain ⟨blockLow, blockHigh⟩ := ofWord_bounds blocks
  obtain ⟨secondsNonneg, secondsSmall⟩ := seconds_bounds log hashes blocks low high
  have rateLow := (rate_bounds hashes blocks).1
  have ratePositive := rate_pos hashes blocks
  have word : ∀ word : UInt64, finite? word.toNat = some (ofWord word) := fun word =>
    finite?_of_le 64 (by norm_num) (Nat.cast_nonneg _)
      (by exact_mod_cast word.toNat_lt.le)
  have rated :
      quotient? (ofWord hashrate) (ofWord difficulty) = some (rate hashrate difficulty) := by
    rw [quotient?, if_neg (by linarith)]
    exact finite?_of_le 64 (by norm_num) (div_nonneg (by linarith) (by linarith))
      ((div_le_self (by linarith) blockLow).trans hashHigh)
  have survives : finite? survival = some survival := by
    rw [finite?_of_le 0 (by norm_num) (by linarith) (by simpa using high),
      toDouble_of_isDouble double]
  have logged : logarithm? ln survival = some (ln survival) := by
    have room : (34 : Rat) < 2 ^ 1024 :=
      lt_of_lt_of_le (by norm_num) (pow_le_pow_right₀ (by norm_num) (by norm_num : 6 ≤ 1024))
    rw [logarithm?, if_pos]
    refine ⟨lt_of_lt_of_le (by norm_num) low, ?_⟩
    rw [abs_of_nonpos negative]
    exact lt_of_le_of_lt (by linarith) room
  have timed : quotient? (-ln survival) (rate hashrate difficulty) =
      some (seconds ln hashrate difficulty survival) := by
    rw [quotient?, if_neg ratePositive.ne']
    refine finite?_of_le 70 (by norm_num) (div_nonneg (by linarith) ratePositive.le) ?_
    rw [div_le_iff₀ ratePositive]
    norm_num at rateLow ⊢
    linarith
  have counted : finite? (seconds ln hashrate difficulty survival * 1000000000) =
      some (exactDelay ln hashrate difficulty survival) := by
    refine finite?_of_le 100 (by norm_num) (by linarith) ?_
    norm_num at secondsSmall ⊢
    linarith
  simp only [finiteDelay?, same, word, rated, survives, logged, timed, counted, Option.pure_def,
    Option.bind_eq_bind, Option.bind_some]

/-- A worker that draws at a positive rate gets the delay of its draw, computed without an infinite
number. -/
theorem drawDelay_total (log : IsLogarithm ln) (hashes : hashrate ≠ 0) (blocks : difficulty ≠ 0)
    (stream : Generator) :
    ∃ result, drawDelay ln hashrate difficulty stream = .ok (result, stream.next) ∧
      finiteDelay? ln hashrate difficulty stream.next.uniform = some result := by
  have small := stream.next_fits
  obtain ⟨low, high⟩ := survival_bounds small
  refine ⟨_, drawDelay_rated hashes blocks, ?_⟩
  rw [Generator.uniform_eq]
  exact finiteDelay?_rated log hashes blocks low high (isDouble_survival small)

/-- With a positive hashrate and difficulty every draw has a delay.  It is the number of whole
nanoseconds, cut at the largest word, and no number on the way to it is infinite or none at all.
The first draw of all has no delay.  Delays get longer with the draw and the difficulty and
shorter with the hashrate.  Without a positive rate there is no delay, and the stream stays
where it is. -/
theorem delays_total_and_monotone {ln : Rat → Rat} (log : IsLogarithm ln) :
    (∀ (hashrate difficulty : UInt64) (number : Nat), hashrate ≠ 0 → difficulty ≠ 0 →
      number < 2 ^ 48 → ∃ result,
        delay ln hashrate difficulty (1 - number / 2 ^ 48) = .ok result ∧
        finiteDelay? ln hashrate difficulty (number / 2 ^ 48) = some result ∧
        (result.toNat : Int) =
          min (exactDelay ln hashrate difficulty (1 - number / 2 ^ 48)).floor (2 ^ 64 - 1) ∧
        (number = 0 → result = 0)) ∧
    (∀ (hashrate lessHashrate difficulty lessDifficulty : UInt64) (number lessNumber : Nat)
        (shorter longer : UInt64),
      lessHashrate ≠ 0 → lessHashrate ≤ hashrate →
      lessDifficulty ≠ 0 → lessDifficulty ≤ difficulty →
      lessNumber ≤ number → number < 2 ^ 48 →
      delay ln hashrate lessDifficulty (1 - lessNumber / 2 ^ 48) = .ok shorter →
      delay ln lessHashrate difficulty (1 - number / 2 ^ 48) = .ok longer →
      shorter ≤ longer) ∧
    (∀ (hashrate difficulty : UInt64) (survival : Rat) (stream : Generator),
      hashrate = 0 ∨ difficulty = 0 →
        delay ln hashrate difficulty survival = .error (.invalidRate hashrate difficulty) ∧
        attemptDelay ln hashrate difficulty stream =
          (.error (.invalidRate hashrate difficulty), stream)) ∧
    ∀ (hashrate difficulty : UInt64) (stream : Generator), hashrate ≠ 0 → difficulty ≠ 0 →
      attemptDelay ln hashrate difficulty stream =
        (delay ln hashrate difficulty (1 - stream.next.state.toNat / 2 ^ 48), stream.next) := by
  refine ⟨?_, ?_, ?_, ?_⟩
  · intro hashrate difficulty number hashes blocks small
    obtain ⟨low, high⟩ := survival_bounds small
    have nonneg := exactDelay_nonneg log hashes blocks low high
    refine ⟨_, delay_rated hashes blocks,
      finiteDelay?_rated log hashes blocks low high (isDouble_survival small),
      saturate_toNat nonneg, ?_⟩
    rintro rfl
    have certain : (1 : Rat) - (0 : Nat) / 2 ^ 48 = 1 := by norm_num
    rw [certain, exactDelay_one log]
    rfl
  · intro hashrate lessHashrate difficulty lessDifficulty number lessNumber shorter longer
      rated hashes positive blocks order small first second
    have hashed : hashrate ≠ 0 := by
      rintro rfl
      exact rated (UInt64.le_zero_iff.mp hashes)
    have blocked : difficulty ≠ 0 := by
      rintro rfl
      exact positive (UInt64.le_zero_iff.mp blocks)
    rw [delay_rated hashed positive] at first
    rw [delay_rated rated blocked] at second
    cases first
    cases second
    obtain ⟨low, _⟩ := survival_bounds small
    obtain ⟨lessLow, high⟩ := survival_bounds (order.trans_lt small)
    have later : (1 : Rat) - number / 2 ^ 48 ≤ 1 - lessNumber / 2 ^ 48 := by
      have cast : (lessNumber : Rat) ≤ number := Nat.cast_le.mpr order
      linarith
    exact saturate_mono (exactDelay_nonneg log hashed positive lessLow high)
      (exactDelay_mono log rated hashes positive blocks low later high)
  · intro hashrate difficulty survival stream unrated
    refine ⟨?_, attemptDelay_unrated unrated⟩
    rw [delay, checkRate_unrated unrated]
    rfl
  · intro hashrate difficulty stream hashes blocks
    rw [attemptDelay_rated hashes blocks, Generator.uniform_eq]

/-- A logarithm that is right, as a double, at three survival probabilities: the least one, that
of the first draw behind the seed 101, and one. -/
def coarseLogarithm (argument : Rat) : Rat :=
  if argument < 1 - 34300881621249 / 2 ^ 48 then -4682486076124019 / 140737488355328
  else if argument < 1 then -4681964661217939 / 36028797018963968
  else 0

theorem isLogarithm_coarse : IsLogarithm coarseLogarithm where
  mono smaller larger positive order high := by
    unfold coarseLogarithm
    split_ifs <;> first | exact le_refl _ | (exfalso; linarith) | norm_num
  one := by
    unfold coarseLogarithm
    norm_num
  bounded survival low high := by
    unfold coarseLogarithm
    split_ifs <;> norm_num

theorem coarse_delays :
    delay coarseLogarithm 1000 1 (1 - (34300881621249 : Nat) / 2 ^ 48) = .ok 129950 ∧
      delay coarseLogarithm 1 18446744073709551615 (1 - (281474976710655 : Nat) / 2 ^ 48) =
        .ok 18446744073709551615 ∧
      (129950 : UInt64) ≤ 18446744073709551615 ∧
      (∃ result, delay coarseLogarithm 1000 1 (1 - (0 : Nat) / 2 ^ 48) = .ok result ∧ result = 0) ∧
      attemptDelay coarseLogarithm 0 7 (.ofSeed 101) = (.error (.invalidRate 0 7), .ofSeed 101) ∧
      attemptDelay coarseLogarithm 1000 1 (.ofSeed 101) =
        (.ok 129950, (Generator.ofSeed 101).next) := by
  obtain ⟨total, monotone, unrated, rated⟩ := delays_total_and_monotone isLogarithm_coarse
  have first : delay coarseLogarithm 1000 1 (1 - (34300881621249 : Nat) / 2 ^ 48) = .ok 129950 := by
    decide +kernel
  have last : delay coarseLogarithm 1 18446744073709551615
      (1 - (281474976710655 : Nat) / 2 ^ 48) = .ok 18446744073709551615 := by
    decide +kernel
  refine ⟨first, last, ?_, ?_, ?_, ?_⟩
  · exact monotone 1000 1 18446744073709551615 1 281474976710655 34300881621249 _ _ (by decide)
      (by decide) (by decide) (by decide) (by decide) (by decide) first last
  · obtain ⟨result, answered, _, _, none⟩ := total 1000 1 0 (by decide) (by decide) (by decide)
    exact ⟨result, answered, none rfl⟩
  · exact (unrated 0 7 1 (.ofSeed 101) (.inl rfl)).2
  · rw [rated 1000 1 (.ofSeed 101) (by decide) (by decide)]
    exact congrArg (·, (Generator.ofSeed 101).next) first

end MiningAgent.Discovery
