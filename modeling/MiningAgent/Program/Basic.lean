import MiningAgent.CommandLine.Command
import MiningAgent.Sampling
import MiningAgent.Settings.Resolution
import MiningAgent.Shift

/-!
# The program

What each command does, over any world that can carry it out.
-/

namespace MiningAgent

open CommandLine

/-- Everything that a program needs from outside.  Operations that may fail tell why
they did. -/
structure World (m : Type → Type) where
  environment : Environment
  logarithm : Rat → Rat
  readFile : String → m (Except String String)
  writeFile : String → String → m (Except String Unit)
  /-- Empties a file and sends the log there; until then it goes to the output. -/
  openLog : String → m (Except String Unit)
  log : UInt32 → LogEntry → m Unit
  print : String → m Unit
  warn : String → m Unit
  now : m Instant
  /-- Lets a shift go on until it is over, and shows its events. -/
  await : Shift → (List Event → m Unit) → m Shift

inductive Ending
  | refused (fault : UsageFault)
  | failed (fault : Fault)
  | done
deriving DecidableEq, Repr

namespace Ending

def exitCode : Ending → UInt8
  | .refused .help => 0
  | .refused .version => 0
  | .refused _ => 2
  | .failed _ => 1
  | .done => 0

end Ending

namespace Program

def name : String := "miningshim"

def version : String := "0.1.0"

variable {m : Type → Type} [Monad m] (world : World m)

def logAll (level : LogLevel) (agentId : UInt32) (entries : List LogEntry) : m Unit :=
  (entries.filter fun entry => entry.passes level).forM (world.log agentId)

/-- Shows what happened to an agent: entries go to the log, reports to their files. -/
def showEvents (settings : Settings) (events : List Event) : m Unit := do
  logAll world settings.logLevel settings.agentId (Event.entries events)
  (Event.reports events).forM fun (path, report) => do
    let _ ← world.writeFile path report.fileText

/-- Sends the log to its file, or warns that it stays where it is. -/
def beginLog (path : String) : m Unit := do
  match ← world.openLog path with
  | .ok () => return ()
  | .error reason =>
      world.warn ("[MININGSHIM] Failed to open log file " ++ path ++ ": " ++ reason)

def conclude (settings : Settings) (session : Session) : m Ending := do
  let (report, entry) := session.exportReport settings.metricsPath
  match ← world.writeFile settings.metricsPath report.fileText with
  | .error reason => return .failed (.io reason)
  | .ok () =>
      logAll world settings.logLevel settings.agentId [entry]
      world.print report.toJson.pretty
      return .done

/-- The settings of a run.  Only a run that names a document reads one. -/
def settingsOf (options : RunOptions) : m (Except Fault Settings) := do
  let contents ←
    match options.config with
    | some path => world.readFile path
    | none => pure (.ok "")
  return Settings.resolve options world.environment fun _ => contents

def run (options : RunOptions) : m Ending := do
  match ← settingsOf world options with
  | .error fault => return .failed fault
  | .ok settings =>
      beginLog world settings.logPath
      match Shift.start world.logarithm settings options (← world.now) with
      | .error fault => return .failed fault
      | .ok (shift, events) =>
          showEvents world settings events
          let mined ← world.await shift (showEvents world settings)
          let (finished, later) := mined.finish (← world.now)
          showEvents world settings later
          conclude world settings finished.session

def sampleDelays (options : DelayOptions) : m Ending := do
  let identity : Identity := ⟨options.seed, options.agentId⟩
  match Sample.report world.logarithm identity options.hashrate options.difficulty
      options.samples with
  | .error fault => return .failed fault
  | .ok entries =>
      logAll world .info options.agentId entries
      return .done

def writeTemplate (options : TemplateOptions) : m Ending := do
  match ← world.writeFile options.output Settings.template with
  | .error reason => return .failed (.io reason)
  | .ok () => return .done

def perform : Command → m Ending
  | .run options => run world options
  | .delays options => sampleDelays world options
  | .template options => writeTemplate world options

def usage : String :=
  "Usage: miningshim <COMMAND>\n\n" ++
  "Commands:\n" ++
  "  run     Run one simulated agent for a fixed duration\n" ++
  "  delays  Sample discovery delays and compare them with the expected mean\n" ++
  "  config  Generate configuration file template\n" ++
  "  help    Print this message or the help of the given subcommand(s)"

def execute (arguments : List String) : m Ending := do
  match Command.read arguments with
  | .ok command => perform world command
  | .error .version =>
      world.print (name ++ " " ++ version)
      return .refused .version
  | .error .help =>
      world.print usage
      return .refused .help
  | .error fault => return .refused fault

end Program

end MiningAgent
