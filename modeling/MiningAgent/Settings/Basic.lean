import MiningAgent.Fault
import MiningAgent.Identity
import MiningAgent.LogLevel

/-!
# Settings

Everything that is decided about an agent before it starts.  Settings are valid if
the agent can mine with them and its reports have an interval.
-/

namespace MiningAgent

structure Settings where
  hashrate : UInt64
  agentId : UInt32
  seed : UInt64
  logLevel : LogLevel
  logFile : Option String
  metricsFile : Option String
  errorReportFile : Option String
  /-- Seconds between two periodic reports. -/
  reportInterval : UInt64
deriving DecidableEq, Repr

/-- A setting that an environment variable may hold. -/
inductive Variable
  | hashrate
  | agentId
  | seed
  | logLevel
  | logFile
  | metricsFile
deriving DecidableEq, Repr

namespace Variable

def name : Variable → String
  | hashrate => "MINER_HASHRATE"
  | agentId => "AGENT_ID"
  | seed => "SIMULATION_SEED"
  | logLevel => "MININGSHIM_LOG_LEVEL"
  | logFile => "MININGSHIM_LOG_FILE"
  | metricsFile => "MININGSHIM_METRICS_FILE"

/-- The variables without which there are no settings. -/
def required : List Variable := [hashrate, agentId, seed]

end Variable

namespace Settings

def defaultReportInterval : UInt64 := 60

/-- The first thing that is wrong with the settings. -/
def fault? (settings : Settings) : Option ConfigurationFault :=
  if settings.hashrate = 0 then some (.zero Variable.hashrate.name)
  else if settings.reportInterval = 0 then some (.zero "report_interval_secs")
  else none

def IsValid (settings : Settings) : Prop := settings.fault? = none

instance (settings : Settings) : Decidable settings.IsValid :=
  inferInstanceAs (Decidable (settings.fault? = none))

def check (settings : Settings) : Except Fault Settings :=
  match settings.fault? with
  | none => .ok settings
  | some fault => .error (.configuration fault)

theorem isValid_iff (settings : Settings) :
    settings.IsValid ↔ settings.hashrate ≠ 0 ∧ settings.reportInterval ≠ 0 := by
  unfold IsValid fault?
  split
  · simp_all
  · split <;> simp_all

theorem check_eq_ok_iff (settings checked : Settings) :
    settings.check = .ok checked ↔ settings.IsValid ∧ checked = settings := by
  unfold check IsValid
  cases settings.fault? <;> simp [eq_comm]

def identity (settings : Settings) : Identity := ⟨settings.seed, settings.agentId⟩

def logPath (settings : Settings) : String :=
  settings.logFile.getD
    ("/tmp/miningshim_agent" ++ toString settings.agentId.toNat ++ ".log")

def metricsPath (settings : Settings) : String :=
  settings.metricsFile.getD
    ("/tmp/miningshim_metrics_agent" ++ toString settings.agentId.toNat ++ ".json")

/-- Where a fatal error leaves a report. -/
def errorReportPath (settings : Settings) : String :=
  settings.errorReportFile.getD "/tmp/miningshim_error_metrics.json"

/-- Settings of which some may still be missing. -/
structure Draft where
  hashrate : Option UInt64
  agentId : Option UInt32
  seed : Option UInt64
  logLevel : LogLevel
  logFile : Option String
  metricsFile : Option String
  errorReportFile : Option String
  reportInterval : UInt64
deriving DecidableEq, Repr

namespace Draft

def isPresent (draft : Draft) : Variable → Bool
  | .hashrate => draft.hashrate.isSome
  | .agentId => draft.agentId.isSome
  | .seed => draft.seed.isSome
  | .logLevel => true
  | .logFile => draft.logFile.isSome
  | .metricsFile => draft.metricsFile.isSome

/-- The names of all required settings that the draft lacks. -/
def missing (draft : Draft) : List String :=
  (Variable.required.filter fun setting => !draft.isPresent setting).map Variable.name

/-- The settings that a draft describes, if none is missing and they are valid. -/
def complete (draft : Draft) : Except Fault Settings :=
  match draft.hashrate, draft.agentId, draft.seed with
  | some hashrate, some agentId, some seed =>
      Settings.check
        { hashrate := hashrate
          agentId := agentId
          seed := seed
          logLevel := draft.logLevel
          logFile := draft.logFile
          metricsFile := draft.metricsFile
          errorReportFile := draft.errorReportFile
          reportInterval := draft.reportInterval }
  | _, _, _ => .error (.configuration (.missing draft.missing))

end Draft

end Settings

end MiningAgent
