import MiningAgent.Text.UpperCase

/-!
# Log levels

How much an agent writes to its log, from nothing to every iteration.
-/

namespace MiningAgent

inductive LogLevel
  | silent
  | error
  | warn
  | info
  | debug
deriving DecidableEq, Repr

namespace LogLevel

def all : List LogLevel := [silent, error, warn, info, debug]

/-- Without a setting an agent logs its lifecycle and its blocks. -/
def default : LogLevel := info

def loudness : LogLevel → Nat
  | silent => 0
  | error => 1
  | warn => 2
  | info => 3
  | debug => 4

def above (level : LogLevel) : List LogLevel :=
  all.filter fun other => level.loudness < other.loudness

def name : LogLevel → String
  | silent => "NONE"
  | error => "ERROR"
  | warn => "WARN"
  | info => "INFO"
  | debug => "DEBUG"

/-- The threshold a level sets: it lets through what is at most as loud. -/
def threshold : LogLevel → String
  | silent => "OFF"
  | level => level.name

def ofName? (text : String) : Option LogLevel :=
  all.find? fun level => level.name = text

/-- The level with this name, ASCII letters in either case. -/
def ofNameIgnoringCase? (text : String) : Option LogLevel :=
  ofName? (text.map Char.toUpper)

/-- The level that a host spells freely: any case, `OFF` for silence and
`WARNING` for warnings. -/
def ofSpelling? (text : List Char) : Option LogLevel :=
  let upper := String.ofList (Text.toUpperCase text)
  if upper = "OFF" then some silent
  else if upper = "WARNING" then some warn
  else ofName? upper

theorem ofName?_name (level : LogLevel) : ofName? level.name = some level := by
  cases level <;> decide

end LogLevel

end MiningAgent
