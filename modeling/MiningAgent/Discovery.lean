import MiningAgent.Fault
import MiningAgent.Rounding
import MiningAgent.Generator

/-!
# Discovery delays

Blocks are found at the rate `hashrate / difficulty` per second, so the time to
the next one is exponentially distributed.  A uniform draw `u` is turned into a
delay of `-ln (1 - u) / rate` seconds, each operation rounded to double
precision, and then into whole nanoseconds.

The logarithm is a parameter.  Its argument `1 - u` is the probability that no
block has been found by the end of the delay; it is called `survival` here.
-/

namespace MiningAgent.Discovery

/-- Blocks per second. -/
def rate (hashrate difficulty : UInt64) : Rat :=
  Rounding.toDouble (Rounding.ofWord hashrate / Rounding.ofWord difficulty)

/-- The delay in nanoseconds before conversion to a word. -/
def exactDelay (ln : Rat → Rat) (hashrate difficulty : UInt64) (survival : Rat) : Rat :=
  let seconds := Rounding.toDouble (-(ln survival) / rate hashrate difficulty)
  Rounding.toDouble (seconds * 1000000000)

/-- Nanoseconds as a word: the fraction is dropped, what is below zero becomes
zero, what does not fit the largest word. -/
def saturate (nanoseconds : Rat) : UInt64 :=
  if 18446744073709551616 ≤ nanoseconds then 18446744073709551615
  else UInt64.ofNat nanoseconds.floor.toNat

/-- Neither a zero hashrate nor a zero difficulty gives a positive finite rate. -/
def checkRate (hashrate difficulty : UInt64) : Except Fault Unit :=
  if hashrate = 0 ∨ difficulty = 0 then .error (.invalidRate hashrate difficulty) else .ok ()

/-- The delay for one value of the survival probability in `(0, 1]`. -/
def delay (ln : Rat → Rat) (hashrate difficulty : UInt64) (survival : Rat) :
    Except Fault UInt64 := do
  checkRate hashrate difficulty
  return saturate (exactDelay ln hashrate difficulty survival)

def machineLogarithm (argument : Rat) : Rat :=
  (Rounding.ofFloat? (Float.log (Rounding.toFloat argument))).getD 0

/-- The delay for any machine number in place of a uniform draw.  Where the
survival probability has no finite logarithm the delay is the largest word. -/
def delayOfFloat (ln : Rat → Rat) (hashrate difficulty : UInt64) (uniform : Float) :
    Except Fault UInt64 := do
  checkRate hashrate difficulty
  match Rounding.ofFloat? (1 - uniform) with
  | some survival =>
      if survival ≤ 0 then return 18446744073709551615
      else return saturate (exactDelay ln hashrate difficulty survival)
  | none => return 18446744073709551615

/-- The answer to a request for the next delay, and the stream as it is afterwards.  The
rate is checked before the draw, and once more for the delay itself. -/
def attemptDelay (ln : Rat → Rat) (hashrate difficulty : UInt64) (stream : Generator) :
    Except Fault UInt64 × Generator :=
  match checkRate hashrate difficulty with
  | .error fault => (.error fault, stream)
  | .ok () =>
      let drawn := stream.next
      (delay ln hashrate difficulty (1 - drawn.uniform), drawn)

/-- The delay of an attempt together with the stream behind it.  A failed attempt has drawn
nothing, so its stream is not told. -/
def drawDelay (ln : Rat → Rat) (hashrate difficulty : UInt64) (stream : Generator) :
    Except Fault (UInt64 × Generator) :=
  let (answer, rest) := attemptDelay ln hashrate difficulty stream
  answer.map fun delay => (delay, rest)

section Rates

variable {ln : Rat → Rat} {hashrate difficulty : UInt64} {survival : Rat} {stream : Generator}

theorem checkRate_rated (hashes : hashrate ≠ 0) (blocks : difficulty ≠ 0) :
    checkRate hashrate difficulty = .ok () := by
  simp [checkRate, hashes, blocks]

theorem checkRate_unrated (unrated : hashrate = 0 ∨ difficulty = 0) :
    checkRate hashrate difficulty = .error (.invalidRate hashrate difficulty) := by
  simp [checkRate, unrated]

theorem delay_rated (hashes : hashrate ≠ 0) (blocks : difficulty ≠ 0) :
    delay ln hashrate difficulty survival =
      .ok (saturate (exactDelay ln hashrate difficulty survival)) := by
  rw [delay, checkRate_rated hashes blocks]
  rfl

theorem attemptDelay_rated (hashes : hashrate ≠ 0) (blocks : difficulty ≠ 0) :
    attemptDelay ln hashrate difficulty stream =
      (delay ln hashrate difficulty (1 - stream.next.uniform), stream.next) := by
  rw [attemptDelay, checkRate_rated hashes blocks]

theorem attemptDelay_unrated (unrated : hashrate = 0 ∨ difficulty = 0) :
    attemptDelay ln hashrate difficulty stream =
      (.error (.invalidRate hashrate difficulty), stream) := by
  rw [attemptDelay, checkRate_unrated unrated]

/-- The second check never fails, so a delay comes with exactly one draw. -/
theorem drawDelay_rated (hashes : hashrate ≠ 0) (blocks : difficulty ≠ 0) :
    drawDelay ln hashrate difficulty stream =
      .ok (saturate (exactDelay ln hashrate difficulty (1 - stream.next.uniform)),
        stream.next) := by
  rw [drawDelay, attemptDelay_rated hashes blocks, delay_rated hashes blocks]
  rfl

theorem drawDelay_unrated (unrated : hashrate = 0 ∨ difficulty = 0) :
    drawDelay ln hashrate difficulty stream = .error (.invalidRate hashrate difficulty) := by
  rw [drawDelay, attemptDelay_unrated unrated]
  rfl

end Rates

def nonceOfUniform (uniform : Rat) : UInt32 :=
  UInt32.ofNat (Rounding.toDouble (uniform * 4294967295)).floor.toNat

def drawNonce (stream : Generator) : UInt32 × Generator :=
  let drawn := stream.next
  (nonceOfUniform drawn.uniform, drawn)

end MiningAgent.Discovery
