import MiningAgent.Block
import MiningAgent.Codec
import MiningAgent.Decimal
import MiningAgent.Difficulty
import MiningAgent.Fault
import MiningAgent.Identity
import MiningAgent.LogLevel
import MiningAgent.Report
import MiningAgent.Signal

/-!
# The log

Everything an agent writes to its log, as data.  An entry has a level and a text;
a level lets through the entries that are at most as loud.
-/

namespace MiningAgent

inductive LogEntry
  | streamReady (identity : Identity)
  | startRequested (context : Context)
  | startFailed (fault : Fault)
  | stopRequested
  | started
  | alreadyActive
  | stopped
  | notActive
  | workerMissing (reason : String)
  | peerBlockReceived (announcement : Announcement)
  | difficultyAnnounced (announcement : Announcement)
  | zeroDifficultyIgnored (height : UInt64)
  | outOfOrderIgnored (height last : UInt64)
  | interruptSent (reason : Interruption)
  | loopStarted
  | loopStopped
  | iteration (difficulty hashrate delay : UInt64)
  | interrupted (reason : Interruption)
  | blockFound (delay : UInt64)
  | blockCreated (context : Context) (block : Block)
  | blockAccepted (block : Block)
  | miningError (fault : Fault)
  | reportWritten (path : String)
  | errorReportFailed (path : String) (fault : Fault)
  | periodicReport (agentId : UInt32) (tally : Tally)
  | delaysSampled (count hashrate difficulty seed : UInt64)
  | meanDelay (mean expected : Rat)
  | longestDelay (longest : Rat)

namespace LogEntry

def level : LogEntry → LogLevel
  | startFailed _ => .error
  | alreadyActive => .warn
  | notActive => .warn
  | workerMissing _ => .error
  | peerBlockReceived _ => .debug
  | difficultyAnnounced _ => .debug
  | zeroDifficultyIgnored _ => .warn
  | outOfOrderIgnored _ _ => .debug
  | interruptSent _ => .debug
  | iteration _ _ _ => .debug
  | interrupted _ => .debug
  | miningError fault => if fault.isFatal then .error else .warn
  | errorReportFailed _ _ => .warn
  | _ => .info

def number (value : UInt64) : String := toString value.toNat

def message : LogEntry → String
  | streamReady identity =>
      "PRNG initialized: global_seed=" ++ number identity.globalSeed ++
        ", agent_id=" ++ toString identity.agentId.toNat ++
        ", agent_seed=" ++ number identity.agentSeed
  | startRequested context =>
      "Mining start requested: wallet=" ++ context.wallet ++
        ", threads=" ++ number context.threads
  | startFailed fault => "Mining start failed: " ++ fault.message
  | stopRequested => "Mining stop requested"
  | started => "Mining started successfully"
  | alreadyActive => "Mining already active, ignoring start request"
  | stopped => "Mining stopped successfully"
  | notActive => "Mining not active, ignoring stop request"
  | workerMissing reason => "Failed to create mining thread: " ++ reason
  | peerBlockReceived announcement =>
      "New peer block received: height=" ++ number announcement.height ++
        ", difficulty=" ++ number announcement.difficulty
  | difficultyAnnounced announcement =>
      "Difficulty update: difficulty=" ++ number announcement.difficulty ++
        ", height=" ++ number announcement.height
  | zeroDifficultyIgnored height =>
      "Ignoring zero difficulty announced at height " ++ number height
  | outOfOrderIgnored height last =>
      "Ignoring out-of-order difficulty update: height=" ++ number height ++
        " last=" ++ number last
  | interruptSent reason => "Mining interrupted for " ++ reason.name
  | loopStarted => "Mining loop started"
  | loopStopped => "Mining loop stopped"
  | iteration difficulty hashrate delay =>
      "Mining iteration: difficulty=" ++ number difficulty ++
        ", hashrate=" ++ number hashrate ++ ", time_to_block=" ++ number delay ++ " ns"
  | interrupted reason => "Mining interrupted by " ++ reason.name
  | blockFound delay => "Block found after " ++ number delay ++ " ns"
  | blockCreated context block =>
      "Block created for " ++ context.wallet ++ ": " ++ block.toJson.compact
  | blockAccepted block =>
      "Block created and broadcast: height=" ++ number block.height ++
        " nonce=" ++ Decimal.hexWord block.nonce
  | miningError fault => "Mining error: " ++ fault.message
  | reportWritten path => "Metrics exported to " ++ path
  | errorReportFailed path fault =>
      "Failed to write error metrics to " ++ path ++ ": " ++ fault.message
  | periodicReport agentId tally => Report.line agentId tally
  | delaysSampled count hashrate difficulty seed =>
      "Sampled " ++ number count ++ " delays for hashrate=" ++ number hashrate ++
        " difficulty=" ++ number difficulty ++ " seed=" ++ number seed
  | meanDelay mean expected =>
      "Mean delay: " ++ Decimal.fixed 6 mean ++ "s (expected " ++
        Decimal.fixed 6 expected ++ "s)"
  | longestDelay longest => "Longest delay: " ++ Decimal.fixed 6 longest ++ "s"

/-- Whether a log at `threshold` keeps the entry. -/
def passes (entry : LogEntry) (threshold : LogLevel) : Bool :=
  entry.level.loudness ≤ threshold.loudness

end LogEntry

/-- The entry that a refused announcement leaves. -/
def Tracker.Verdict.entry? (verdict : Verdict) (announcement : Announcement) :
    Option LogEntry :=
  match verdict with
  | .accepted => none
  | .zeroDifficulty => some (.zeroDifficultyIgnored announcement.height)
  | .outOfOrder last => some (.outOfOrderIgnored announcement.height last)

end MiningAgent
