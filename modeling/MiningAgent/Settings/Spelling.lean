import MiningAgent.Settings.Variables
import MiningAgent.Toml.Printer

/-!
# Writing settings

Settings as the variables and as the lines of a document that hold them.  What is
absent is left out.
-/

namespace MiningAgent.Settings

/-- Variables that hold the settings.  There are none for the error report and for
the interval. -/
def environment (settings : Settings) : Environment
  | .hashrate => some (String.ofList (Text.decimal settings.hashrate.toNat))
  | .agentId => some (String.ofList (Text.decimal settings.agentId.toNat))
  | .seed => some (String.ofList (Text.decimal settings.seed.toNat))
  | .logLevel => some settings.logLevel.name
  | .logFile => settings.logFile
  | .metricsFile => settings.metricsFile

def pathPair (key : String) (path : Option String) : List (List Char × List Char) :=
  path.toList.map fun path => (key.toList, Toml.quote path.toList)

def pairs (settings : Settings) : List (List Char × List Char) :=
  [("miner_hashrate".toList, Text.decimal settings.hashrate.toNat),
   ("agent_id".toList, Text.decimal settings.agentId.toNat),
   ("simulation_seed".toList, Text.decimal settings.seed.toNat),
   ("log_level".toList, Toml.quote settings.logLevel.name.toList),
   ("report_interval_secs".toList, Text.decimal settings.reportInterval.toNat)] ++
  pathPair "log_file" settings.logFile ++ pathPair "metrics_file" settings.metricsFile ++
  pathPair "error_metrics_file" settings.errorReportFile

/-- A document with one setting a line. -/
def document (settings : Settings) : String :=
  String.ofList (settings.pairs.flatMap fun (key, value) => Toml.pairLine key value)

end MiningAgent.Settings
