/-!
# The stream of draws

A 48-bit linear congruential generator.  Every random decision of an agent reads
one stream, so two streams that start equal stay equal draw for draw.  The value
drawn is the state after the step.
-/

namespace MiningAgent

/-- The state of a generator; its 48 low bits are the last value drawn. -/
structure Generator where
  state : UInt64
deriving DecidableEq, Repr

namespace Generator

def multiplier : UInt64 := 0x5DEECE66D

def increment : UInt64 := 0xB

def stateMask : UInt64 := 0xFFFFFFFFFFFF

/-- The low 32 bits of the seed stand above the fixed bits `0x330E`. -/
def ofSeed (seed : UInt64) : Generator :=
  ⟨((seed &&& 0xFFFFFFFF) <<< 16) ||| 0x330E⟩

/-- One draw: `multiplier * state + increment` modulo `2 ^ 48`. -/
def next (stream : Generator) : Generator :=
  ⟨(multiplier * stream.state + increment) &&& stateMask⟩

/-- The state as a number in `[0, 1)`, exact in double precision. -/
def uniform (stream : Generator) : Rat :=
  stream.state.toNat / 281474976710656

def uniformFloat (stream : Generator) : Float :=
  stream.state.toFloat / 281474976710656.0

/-- The upper 32 bits of one draw. -/
def drawWord (stream : Generator) : UInt32 × Generator :=
  let drawn := stream.next
  ((drawn.state >>> 16).toUInt32, drawn)

def drawLong (stream : Generator) : UInt64 × Generator :=
  let (low, afterLow) := stream.drawWord
  let (high, afterHigh) := afterLow.drawWord
  ((high.toUInt64 <<< 32) ||| low.toUInt64, afterHigh)

/-- The `count` low bytes of `number`, the least significant first. -/
def littleEndian : Nat → Nat → List UInt8
  | 0, _ => []
  | count + 1, number => UInt8.ofNat (number % 256) :: littleEndian count (number / 256)

/-- `count` bytes: eight at a time from a long word.  A rest of more than four
bytes starts another long word, a shorter one a single word. -/
def drawBytes : Nat → Generator → List UInt8 × Generator
  | 0, stream => ([], stream)
  | count + 8, stream =>
      let (long, afterLong) := stream.drawLong
      let (bytes, afterBytes) := drawBytes count afterLong
      (littleEndian 8 long.toNat ++ bytes, afterBytes)
  | count + 1, stream =>
      if 4 < count + 1 then
        let (long, afterLong) := stream.drawLong
        (littleEndian (count + 1) long.toNat, afterLong)
      else
        let (word, afterWord) := stream.drawWord
        (littleEndian (count + 1) word.toNat, afterWord)

def tryDrawBytes {Failure : Type} (count : Nat) (stream : Generator) :
    Except Failure (List UInt8) × Generator :=
  let (bytes, rest) := drawBytes count stream
  (.ok bytes, rest)

end Generator

end MiningAgent
