import MiningAgent.Text.Number

/-!
# Faults

What can go wrong, by cause.  `Fault.message` words all of them.
-/

namespace MiningAgent

inductive ValueFault
  | number (fault : Text.NumberFault)
  | unknownLevel (text : String)
deriving DecidableEq, Repr

def unknownLevelMessage (text : String) : String :=
  "Unknown log level: " ++ text

def ValueFault.message : ValueFault → String
  | .number fault => fault.message
  | .unknownLevel text => unknownLevelMessage text

inductive ConfigurationFault
  | missing (names : List String)
  /-- A setting whose text does not parse, quoted as it stands. -/
  | invalid (name value : String) (reason : ValueFault)
  | zero (name : String)
  | unreadable (path reason : String)
  /-- A fault described by somebody else. -/
  | described (text : String)
deriving DecidableEq, Repr

def ConfigurationFault.message : ConfigurationFault → String
  | .missing names => "Missing required settings: " ++ ", ".intercalate names
  | .invalid name value reason =>
      "Invalid value '" ++ value ++ "' for " ++ name ++ ": " ++ reason.message
  | .zero name => name ++ " must be greater than zero"
  | .unreadable path reason => "Failed to read config at " ++ path ++ ": " ++ reason
  | .described text => text

inductive Fault
  | configuration (fault : ConfigurationFault)
  | invalidRate (hashrate difficulty : UInt64)
  | broadcast (text : String)
  | worker (text : String)
  | io (text : String)
  | json (text : String)
  | toml (text : String)
deriving DecidableEq, Repr

namespace Fault

def message : Fault → String
  | configuration fault => "Configuration error: " ++ fault.message
  | invalidRate hashrate difficulty =>
      "Invalid discovery rate: hashrate=" ++ toString hashrate.toNat ++
        ", difficulty=" ++ toString difficulty.toNat
  | broadcast text => "Broadcast failed: " ++ text
  | worker text => "Worker thread error: " ++ text
  | io text => "I/O error: " ++ text
  | json text => "JSON error: " ++ text
  | toml text => "TOML parse error: " ++ text

/-- Whether the fault ends the current run: nothing the agent does later could
mend it. -/
def isFatal : Fault → Bool
  | configuration _ => true
  | invalidRate _ _ => true
  | _ => false

end Fault

end MiningAgent
