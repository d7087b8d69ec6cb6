import MiningAgent.CommandLine.Options
import MiningAgent.Settings.Document
import MiningAgent.Settings.Variables

/-!
# Settings of a run

A run takes its settings from a document if it names one, and from variables
otherwise.  Flags override both.
-/

namespace MiningAgent

open CommandLine

namespace CommandLine.RunOptions

def overrides (options : RunOptions) : Environment
  | .hashrate => options.hashrate.map fun number => String.ofList (Text.decimal number.toNat)
  | .agentId => options.agentId.map fun number => String.ofList (Text.decimal number.toNat)
  | .seed => options.seed.map fun number => String.ofList (Text.decimal number.toNat)
  | .logLevel => options.logLevel.map LogLevel.name
  | _ => none

def override (options : RunOptions) (settings : Settings) : Settings :=
  { settings with
    hashrate := options.hashrate.getD settings.hashrate
    agentId := options.agentId.getD settings.agentId
    seed := options.seed.getD settings.seed
    logLevel := options.logLevel.getD settings.logLevel }

end CommandLine.RunOptions

namespace Settings

/-- The settings in a file, given its text or the reason why it cannot be read. -/
def ofFile (path : String) (contents : Except String String) : Except Fault Settings :=
  match contents with
  | .ok text => ofDocument text
  | .error reason => .error (.configuration (.unreadable path reason))

/-- The settings of a run.  The document has to be valid before the flags override
it, and the result has to be valid too. -/
def resolve (options : RunOptions) (environment : Environment)
    (readFile : String → Except String String) : Except Fault Settings :=
  match options.config with
  | none => ofVariables (environment.overriddenBy options.overrides)
  | some path => do (options.override (← ofFile path (readFile path))).check

end Settings

end MiningAgent
