/-!
# Counters

What one agent has done so far.
-/

namespace MiningAgent

structure Tally where
  blocksFound : UInt64
  iterations : UInt64
  peerBlocks : UInt64
  errors : UInt64
  /-- Nanoseconds spent in finished runs. -/
  miningTime : UInt64
  /-- When the last accepted block was found, zero before the first. -/
  lastBlockTime : UInt64
deriving DecidableEq, Repr

namespace Tally

def zero : Tally := ⟨0, 0, 0, 0, 0, 0⟩

def countBlock (tally : Tally) : Tally :=
  { tally with blocksFound := tally.blocksFound + 1 }

def dateBlock (tally : Tally) (timestamp : UInt64) : Tally :=
  { tally with lastBlockTime := timestamp }

def countIteration (tally : Tally) : Tally :=
  { tally with iterations := tally.iterations + 1 }

def countPeerBlock (tally : Tally) : Tally :=
  { tally with peerBlocks := tally.peerBlocks + 1 }

def countError (tally : Tally) : Tally :=
  { tally with errors := tally.errors + 1 }

/-- A sum of two times that stays at the largest word once it is reached. -/
def addSaturating (total elapsed : UInt64) : UInt64 :=
  UInt64.ofNat (min (total.toNat + elapsed.toNat) 18446744073709551615)

def addMiningTime (tally : Tally) (elapsed : UInt64) : Tally :=
  { tally with miningTime := addSaturating tally.miningTime elapsed }

/-- An accepted block counts and gives the time of the last one. -/
def recordBlock (tally : Tally) (timestamp : UInt64) : Tally :=
  tally.countBlock.dateBlock timestamp

end Tally

end MiningAgent
