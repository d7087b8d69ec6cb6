import MiningAgent.Discovery
import MiningAgent.Identity
import MiningAgent.Log

/-!
# Sampling delays

A look at the law of the delays: many of them are drawn, and their mean is set
against the expected one.
-/

namespace MiningAgent

structure Sample where
  totalSeconds : Rat
  longest : UInt64

namespace Sample

def empty : Sample := ⟨0, 0⟩

/-- A sample with one delay more.  The sum is kept in double precision. -/
def add (sample : Sample) (delay : UInt64) : Sample where
  totalSeconds := Rounding.toDouble (sample.totalSeconds + Report.seconds delay)
  longest := max sample.longest delay

def draw (ln : Rat → Rat) (hashrate difficulty : UInt64) :
    Nat → Sample → Generator → Except Fault Sample
  | 0, sample, _ => .ok sample
  | count + 1, sample, stream =>
      match Discovery.drawDelay ln hashrate difficulty stream with
      | .ok (delay, rest) => draw ln hashrate difficulty count (sample.add delay) rest
      | .error fault => .error fault

def entries (sample : Sample) (count hashrate difficulty seed : UInt64) : List LogEntry :=
  let mean := Rounding.toDouble (sample.totalSeconds / Rounding.ofWord count)
  let expected :=
    Rounding.toDouble (Rounding.ofWord difficulty / Rounding.ofWord hashrate)
  [.delaysSampled count hashrate difficulty seed, .meanDelay mean expected,
    .longestDelay (Report.seconds sample.longest)]

/-- Samples the delays of one agent.  At least one has to be asked for. -/
def report (ln : Rat → Rat) (identity : Identity) (hashrate difficulty count : UInt64) :
    Except Fault (List LogEntry) :=
  if count = 0 then .error (.configuration (.zero "samples"))
  else
    (draw ln hashrate difficulty count.toNat empty (.ofSeed identity.agentSeed)).map
      fun sample => sample.entries count hashrate difficulty identity.agentSeed

end Sample

end MiningAgent
