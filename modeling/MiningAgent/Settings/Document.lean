import MiningAgent.Settings.Basic
import MiningAgent.Toml.Reader

/-!
# Settings from a document

Settings are the top-level keys of a TOML document.  Keys that are not settings are
passed over.
-/

namespace MiningAgent

namespace Toml

/-- A whole number from zero to `limit`. -/
def natural? (limit : Nat) : Value → Option Nat
  | .integer number => if 0 ≤ number ∧ number ≤ limit then some number.toNat else none
  | _ => none

def long? (value : Value) : Option UInt64 :=
  (natural? Text.maxLong value).map UInt64.ofNat

def word? (value : Value) : Option UInt32 :=
  (natural? Text.maxWord value).map UInt32.ofNat

def string? : Value → Option String
  | .text text => some (String.ofList text)
  | _ => none

/-- Whether a value is an array or a table without content. -/
def isVacant : Value → Bool
  | .array [] => true
  | .table _ [] => true
  | _ => false

/-- A level is its name, or a table with that one name and nothing in it. -/
def level? : Value → Option LogLevel
  | .text name => LogLevel.ofName? (String.ofList name)
  | .table _ [(name, value)] =>
      if isVacant value then LogLevel.ofName? (String.ofList name) else none
  | _ => none

namespace Entries

/-- The value of a key that may be absent. -/
def optional? {α : Type} (read : Value → Option α) (entries : Entries) (key : String) :
    Option (Option α) :=
  match entries.get? key.toList with
  | none => some none
  | some value => (read value).map some

end Entries

end Toml

namespace Settings

/-- The draft that a table describes, unless a setting has a value of another kind. -/
def Draft.ofEntries? (entries : Toml.Entries) : Option Draft := do
  return { hashrate := ← entries.optional? Toml.long? "miner_hashrate"
           agentId := ← entries.optional? Toml.word? "agent_id"
           seed := ← entries.optional? Toml.long? "simulation_seed"
           logLevel := (← entries.optional? Toml.level? "log_level").getD .default
           logFile := ← entries.optional? Toml.string? "log_file"
           metricsFile := ← entries.optional? Toml.string? "metrics_file"
           errorReportFile := ← entries.optional? Toml.string? "error_metrics_file"
           reportInterval :=
             (← entries.optional? Toml.long? "report_interval_secs").getD
               defaultReportInterval }

def ofDocument (text : String) : Except Fault Settings :=
  match Toml.read? text.toList with
  | none => .error (.toml "the document is malformed")
  | some entries =>
      match Draft.ofEntries? entries with
      | none => .error (.toml "a setting has a value of the wrong kind")
      | some draft => draft.complete

/-- A document to start from: it holds the required settings and tells about all
others. -/
def template : String :=
  "# Mining shim agent configuration\n\n" ++
  "# Simulated hashes per second (required, non-zero)\n" ++
  "miner_hashrate = 1000\n" ++
  "# Agent identifier within the simulation (required)\n" ++
  "agent_id = 1\n" ++
  "# Simulation-wide seed shared by every agent (required)\n" ++
  "simulation_seed = 100\n\n" ++
  "# NONE, ERROR, WARN, INFO or DEBUG\n" ++
  "log_level = \"INFO\"\n" ++
  "# log_file = \"/tmp/miningshim_agent1.log\"\n" ++
  "# metrics_file = \"/tmp/miningshim_metrics_agent1.json\"\n" ++
  "# error_metrics_file = \"/tmp/miningshim_error_metrics.json\"\n" ++
  "# Seconds between periodic metrics reports\n" ++
  "report_interval_secs = 60\n"

end Settings

end MiningAgent
