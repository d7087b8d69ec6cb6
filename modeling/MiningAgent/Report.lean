import MiningAgent.Decimal
import MiningAgent.Tally

/-!
# Reports

What an agent tells about its counters: a record for a file and a line for the log.
-/

namespace MiningAgent

/-- The counters of one agent, with the mean time between its blocks once it has
found any. -/
structure Report where
  agentId : UInt32
  hashrate : UInt64
  tally : Tally
  averageBlockTime : Option UInt64
deriving DecidableEq, Repr

namespace Report

def averageBlockTime? (tally : Tally) : Option UInt64 :=
  if tally.blocksFound = 0 then none else some (tally.miningTime / tally.blocksFound)

def ofTally (agentId : UInt32) (hashrate : UInt64) (tally : Tally) : Report :=
  ⟨agentId, hashrate, tally, averageBlockTime? tally⟩

/-- Nanoseconds in seconds, rounded to double precision as a word and again as a
quotient. -/
def seconds (nanoseconds : UInt64) : Rat :=
  Rounding.toDouble (Rounding.ofWord nanoseconds / 1000000000)

/-- One line of the periodic report. -/
def line (agentId : UInt32) (tally : Tally) : String :=
  "Agent " ++ toString agentId.toNat ++
    " | Blocks: " ++ toString tally.blocksFound.toNat ++
    " | Iterations: " ++ toString tally.iterations.toNat ++
    " | Peer blocks: " ++ toString tally.peerBlocks.toNat ++
    " | Errors: " ++ toString tally.errors.toNat ++
    " | Mining time: " ++ Decimal.fixed 3 (seconds tally.miningTime) ++ "s"

end Report

end MiningAgent
