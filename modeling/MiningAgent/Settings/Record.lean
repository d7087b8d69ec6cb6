import MiningAgent.Codec
import MiningAgent.Settings.Basic

/-!
# Settings as JSON

Settings are written with all their fields.  They are read like the settings of a
document, and have to be complete and valid.
-/

namespace MiningAgent

open Json

namespace Settings

def ofPath : Option String → Json
  | none => .null
  | some path => .ofString path

def toJson (settings : Settings) : Json :=
  .ofMembers
    [("miner_hashrate", .ofLong settings.hashrate),
     ("agent_id", .ofWord settings.agentId),
     ("simulation_seed", .ofLong settings.seed),
     ("log_level", settings.logLevel.toJson),
     ("log_file", ofPath settings.logFile),
     ("metrics_file", ofPath settings.metricsFile),
     ("error_metrics_file", ofPath settings.errorReportFile),
     ("report_interval_secs", .ofLong settings.reportInterval)]

/-- The draft that a value describes.  An array may leave out the interval at its
end. -/
def Draft.ofJson? (value : Json) : Option Draft := do
  match ← fields?
      ["miner_hashrate", "agent_id", "simulation_seed", "log_level", "log_file", "metrics_file",
       "error_metrics_file", "report_interval_secs"] 7 value with
  | [hashrate, agentId, seed, logLevel, logFile, metricsFile, errorReportFile,
      reportInterval] =>
      return { hashrate := ← optional long? hashrate
               agentId := ← optional word? agentId
               seed := ← optional long? seed
               logLevel := ← withDefault .default LogLevel.ofJson? logLevel
               logFile := ← optional string? logFile
               metricsFile := ← optional string? metricsFile
               errorReportFile := ← optional string? errorReportFile
               reportInterval := ← withDefault defaultReportInterval long? reportInterval }
  | _ => none

def ofJson? (value : Json) : Option Settings :=
  (Draft.ofJson? value).bind fun draft => draft.complete.toOption

end Settings

end MiningAgent
