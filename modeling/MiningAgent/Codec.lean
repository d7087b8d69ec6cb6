import MiningAgent.Block
import MiningAgent.Identity
import MiningAgent.Json.Printer
import MiningAgent.Json.Reader
import MiningAgent.Json.Record
import MiningAgent.LogLevel
import MiningAgent.Report

/-!
# Records and their JSON

The JSON of every record an agent writes or reads.  Writing lists the fields in
their declared order; reading takes them in any order.
-/

namespace MiningAgent

namespace Json

def ofLong (value : UInt64) : Json := .ofNat value.toNat

def ofWord (value : UInt32) : Json := .ofNat value.toNat

end Json

open Json

namespace Identity

def toJson (identity : Identity) : Json :=
  .ofMembers [("global_seed", .ofLong identity.globalSeed), ("agent_id", .ofWord identity.agentId)]

def ofJson? (value : Json) : Option Identity := do
  match ← fields? ["global_seed", "agent_id"] 2 value with
  | [globalSeed, agentId] =>
      return { globalSeed := ← required long? globalSeed
               agentId := ← required word? agentId }
  | _ => none

end Identity

namespace Hashrate

def toJson (hashrate : Hashrate) : Json :=
  .ofMembers [("hashrate_per_second", .ofLong hashrate.perSecond)]

def ofJson? (value : Json) : Option Hashrate := do
  match ← fields? ["hashrate_per_second"] 1 value with
  | [perSecond] => return { perSecond := ← required long? perSecond }
  | _ => none

end Hashrate

namespace LogLevel

def toJson (level : LogLevel) : Json := .ofString level.name

/-- A level is its name, or an object with that one name and null. -/
def ofJson? : Json → Option LogLevel
  | .text parts => (joinParts parts).bind fun name => ofName? (String.ofList name)
  | .object [(parts, .null)] => (joinParts parts).bind fun name => ofName? (String.ofList name)
  | _ => none

end LogLevel

namespace Context

def toJson (context : Context) : Json :=
  .ofMembers
    [("wallet_address", .ofString context.wallet),
     ("threads_count", .ofLong context.threads),
     ("background_mining", .bool context.background),
     ("ignore_battery", .bool context.ignoreBattery)]

def ofJson? (value : Json) : Option Context := do
  match ← fields? ["wallet_address", "threads_count", "background_mining", "ignore_battery"] 4
      value with
  | [wallet, threads, background, ignoreBattery] =>
      return { wallet := ← required string? wallet
               threads := ← required long? threads
               background := ← required bool? background
               ignoreBattery := ← required bool? ignoreBattery }
  | _ => none

end Context

namespace Block

def toJson (block : Block) : Json :=
  .ofMembers
    [("agent_id", .ofWord block.agentId),
     ("height", .ofLong block.height),
     ("nonce", .ofWord block.nonce),
     ("timestamp_ns", .ofLong block.timestamp),
     ("difficulty", .ofLong block.difficulty)]

def ofJson? (value : Json) : Option Block := do
  match ← fields? ["agent_id", "height", "nonce", "timestamp_ns", "difficulty"] 5 value with
  | [agentId, height, nonce, timestamp, difficulty] =>
      return { agentId := ← required word? agentId
               height := ← required long? height
               nonce := ← required word? nonce
               timestamp := ← required long? timestamp
               difficulty := ← required long? difficulty }
  | _ => none

end Block

namespace Tally

def fieldNames : List String :=
  ["blocks_found", "mining_iterations", "peer_blocks_received", "mining_errors",
   "total_mining_time_ns", "last_block_time_ns"]

def members (tally : Tally) : List (String × Json) :=
  [("blocks_found", .ofLong tally.blocksFound),
   ("mining_iterations", .ofLong tally.iterations),
   ("peer_blocks_received", .ofLong tally.peerBlocks),
   ("mining_errors", .ofLong tally.errors),
   ("total_mining_time_ns", .ofLong tally.miningTime),
   ("last_block_time_ns", .ofLong tally.lastBlockTime)]

def toJson (tally : Tally) : Json := .ofMembers tally.members

def ofFields? : List (Option Json) → Option Tally
  | [blocksFound, iterations, peerBlocks, errors, miningTime, lastBlockTime] => do
      return { blocksFound := ← required long? blocksFound
               iterations := ← required long? iterations
               peerBlocks := ← required long? peerBlocks
               errors := ← required long? errors
               miningTime := ← required long? miningTime
               lastBlockTime := ← required long? lastBlockTime }
  | _ => none

def ofJson? (value : Json) : Option Tally :=
  (fields? fieldNames 6 value).bind ofFields?

end Tally

namespace Report

def ownNames : List String := ["agent_id", "hashrate", "average_block_time_ns"]

/-- The counters stand between the other members, in one flat object. -/
def toJson (report : Report) : Json :=
  .ofMembers
    ([("agent_id", .ofWord report.agentId), ("hashrate", .ofLong report.hashrate)] ++
      report.tally.members ++
      (match report.averageBlockTime with
       | none => []
       | some average => [("average_block_time_ns", .ofLong average)]))

/-- Nesting that a foreign member may have. -/
def nestingLimit : Nat := 126

/-- Members that are not the report's own are held back until the counters are
picked from among them, so they have to be sound and not nested too deeply. -/
def canHoldBack (members : List (List Part × Json)) : Bool :=
  members.all fun (name, value) =>
    (joinParts name).any (fun text => String.ofList text ∈ ownNames) ||
      (value.isSound && value.depth ≤ nestingLimit)

def ofJson? : Json → Option Report
  | .object members => do
      if canHoldBack members then
        match ← objectFields? ownNames members with
        | [agentId, hashrate, average] =>
            return { agentId := ← required word? agentId
                     hashrate := ← required long? hashrate
                     tally := ← (objectFields? Tally.fieldNames members).bind Tally.ofFields?
                     averageBlockTime := ← optional long? average }
        | _ => none
      else none
  | _ => none

/-- The text of a report file: pretty, with a line end behind it. -/
def fileText (report : Report) : String :=
  report.toJson.pretty ++ "\n"

end Report

end MiningAgent
