import MiningAgent.Calendar
import MiningAgent.Program.Basic
import Std.Time.DateTime.Timestamp

/-!
# The program's outer layer

The world of a program that runs by itself: real files, clocks and variables.
-/

namespace MiningAgent

/-- Where the log goes: to a file once one is open, and to the output before. -/
abbrev LogTarget := IO.Ref (Option IO.FS.Handle)

/-- Runs an action that may fail for a reason of the operating system. -/
def attempt {α : Type} (action : IO α) : IO (Except String α) := do
  try
    return .ok (← action)
  catch fault =>
    return .error (toString fault)

def readClocks : IO Instant := do
  let wall := (← Std.Time.Timestamp.now).toNanosecondsSinceUnixEpoch.val
  let steady ← IO.monoNanosNow
  return ⟨UInt64.ofNat wall.toNat, UInt64.ofNat steady⟩

def openLog (target : LogTarget) (path : String) : IO (Except String Unit) :=
  attempt do
    let handle ← IO.FS.Handle.mk path .write
    target.set (some handle)

/-- One line of the log, with the time, the level and the agent. -/
def logLine (now : Instant) (agentId : UInt32) (entry : LogEntry) : String :=
  "[" ++ Calendar.timestamp now.wall.toNat ++ " " ++ entry.level.name ++ " SHIM:" ++
    toString agentId.toNat ++ "] " ++ entry.message

def writeLog (target : LogTarget) (agentId : UInt32) (entry : LogEntry) : IO Unit := do
  let line := logLine (← readClocks) agentId entry
  match ← target.get with
  | some handle =>
      handle.putStrLn line
      handle.flush
  | none => IO.println line

/-- The texts of the variables that are set when the program begins. -/
def readEnvironment : IO Environment := do
  let hashrate ← IO.getEnv Variable.hashrate.name
  let agentId ← IO.getEnv Variable.agentId.name
  let seed ← IO.getEnv Variable.seed.name
  let logLevel ← IO.getEnv Variable.logLevel.name
  let logFile ← IO.getEnv Variable.logFile.name
  let metricsFile ← IO.getEnv Variable.metricsFile.name
  return fun
    | .hashrate => hashrate
    | .agentId => agentId
    | .seed => seed
    | .logLevel => logLevel
    | .logFile => logFile
    | .metricsFile => metricsFile

/-- Sleeps until a time of the steady clock, in pieces of at most a second. -/
def sleepUntil (time : Nat) : IO Unit := do
  let now ← IO.monoNanosNow
  if now < time then IO.sleep (UInt32.ofNat (min ((time - now) / 1000000 + 1) 1000))

/-- Lets a shift advance whenever it is due, until it is over. -/
partial def awaitShift (shift : Shift) (showEvents : List Event → IO Unit) : IO Shift := do
  let now ← readClocks
  if shift.isOver now then return shift
  else if shift.due ≤ now.steady.toNat then
    let (next, events) := shift.advance now
    showEvents events
    awaitShift next showEvents
  else
    sleepUntil shift.due
    awaitShift shift showEvents

def realWorld (environment : Environment) (target : LogTarget) : World IO where
  environment := environment
  logarithm := Discovery.machineLogarithm
  readFile path := attempt (IO.FS.readFile path)
  writeFile path text := attempt (IO.FS.writeFile path text)
  openLog := openLog target
  log := writeLog target
  print text := IO.println text
  warn text := IO.eprintln text
  now := readClocks
  await := awaitShift

end MiningAgent

open MiningAgent in
def main (arguments : List String) : IO UInt32 := do
  let target ← IO.mkRef none
  let ending ← Program.execute (realWorld (← readEnvironment) target) arguments
  match ending with
  | .failed fault => IO.eprintln ("Error: " ++ fault.message)
  | .refused fault =>
      if ending.exitCode ≠ 0 then
        IO.eprintln ("error: " ++ fault.message ++ "\n\n" ++ Program.usage)
  | .done => return 0
  return ending.exitCode.toUInt32
