import MiningAgent.Settings.Basic
import MiningAgent.Text.Blank

/-!
# Settings from variables

Numbers and the log level are trimmed and parsed, in a fixed order of which the
first fault is told.  Paths are taken as they are.
-/

namespace MiningAgent

/-- The texts of the variables that are set. -/
abbrev Environment := Variable → Option String

namespace Environment

/-- The value of a variable, if it is set. -/
def read {α : Type} (parse : List Char → Except ValueFault α) (environment : Environment)
    (setting : Variable) : Except Fault (Option α) :=
  match environment setting with
  | none => .ok none
  | some text =>
      match parse (Text.trim text.toList) with
      | .ok value => .ok (some value)
      | .error reason => .error (.configuration (.invalid setting.name text reason))

/-- Variables of which some are overridden. -/
def overriddenBy (environment overrides : Environment) : Environment :=
  fun setting => overrides setting <|> environment setting

end Environment

namespace Settings

def parseLong (text : List Char) : Except ValueFault UInt64 :=
  (Text.readLong text).mapError .number

def parseWord (text : List Char) : Except ValueFault UInt32 :=
  (Text.readWord text).mapError .number

def parseLevel (text : List Char) : Except ValueFault LogLevel :=
  match LogLevel.ofSpelling? text with
  | some level => .ok level
  | none => .error (.unknownLevel (String.ofList text))

/-- The draft that the variables describe. -/
def Draft.ofVariables (environment : Environment) : Except Fault Draft := do
  let hashrate ← environment.read parseLong .hashrate
  let agentId ← environment.read parseWord .agentId
  let seed ← environment.read parseLong .seed
  let logLevel ← environment.read parseLevel .logLevel
  return { hashrate := hashrate
           agentId := agentId
           seed := seed
           logLevel := logLevel.getD .default
           logFile := environment .logFile
           metricsFile := environment .metricsFile
           errorReportFile := none
           reportInterval := defaultReportInterval }

def ofVariables (environment : Environment) : Except Fault Settings := do
  (← Draft.ofVariables environment).complete

end Settings

end MiningAgent
