import MiningAgent.Broadcast
import MiningAgent.Discovery
import MiningAgent.Wait

/-!
# The state of a mining agent

An agent serves any number of callers and has a worker for every run.  All of them
share a stream, a tracker, counters and the run slot, and each stands somewhere in
its own code.  The positions below are the points between two atomic steps: taking
or giving back a lock, sending or receiving a signal, spawning or joining a worker,
reading or updating the tracker, drawing, loading or changing one counter, calling
the broadcaster.

Two locks order the callers.  The lifecycle lock is held for the whole of a start
or a stop.  The slot lock guards the run slot and is held only for a few steps.
-/

namespace MiningAgent

/-- A reading of the two clocks: time since the epoch, and a clock that never goes
back.  Both count nanoseconds. -/
structure Instant where
  wall : UInt64
  steady : UInt64
deriving DecidableEq, Repr

def Instant.elapsed (start now : Instant) : UInt64 :=
  if start.steady ≤ now.steady then now.steady - start.steady else 0

structure Agent where
  identity : Identity
  hashrate : Hashrate
  logarithm : Rat → Rat

/-- A run from its start until it is claimed by a stop or by its own worker. -/
structure Run where
  generation : UInt64
  worker : Nat
  started : Instant
deriving DecidableEq, Repr

/-- The run slot.  Generations number the runs, so that a worker can tell its own
run from a later one. -/
structure Slot where
  lastGeneration : UInt64
  active : Option Run
deriving DecidableEq, Repr

inductive Actor
  | caller (number : Nat)
  | worker (number : Nat)
deriving DecidableEq, Repr

/-- Handling a mining error: it is counted and logged.  A fatal one leaves a report
at the report path, for which the counters are loaded one by one. -/
inductive Reporting
  | counting (fault : Fault)
  | judging (fault : Fault)
  | loading (path : String) (loaded : List UInt64)
  | writing (path : String) (tally : Tally)
  | done
deriving DecidableEq, Repr

inductive Retirement
  | locking (generation : UInt64)
  | claiming (generation : UInt64)
  | accounting (run : Run)
  | unlocking
  | done
deriving DecidableEq, Repr

/-- One iteration: what the tracker said when it began, and its delay. -/
structure Task where
  seen : Announcement
  delay : UInt64
deriving DecidableEq, Repr

inductive Position
  | entering
  | reading
  | drawing (seen : Announcement)
  | counting (task : Task)
  /-- In a wait; `confirmed` if it is the one that confirms an earlier one. -/
  | waiting (task : Task) (confirmed : Bool) (wait : Wait)
  /-- The delay has run out; one more look at the queue is due. -/
  | confirming (task : Task)
  | minting (task : Task)
  | offering (block : Block)
  | broadcasting (block : Block)
  | crediting (block : Block)
  | dating (block : Block)
  /-- Handling a fault of the broadcaster; the next iteration follows. -/
  | failing (reporting : Reporting)
  /-- Leaving the slot after a fault that ends the run. -/
  | retiring (retirement : Retirement) (fault : Fault)
  /-- Handling the fault that ended the run. -/
  | dying (reporting : Reporting)
  | leaving
  | exited
deriving DecidableEq, Repr

structure Worker where
  generation : UInt64
  context : Context
  mailbox : Mailbox
  position : Position
deriving DecidableEq, Repr

inductive Call
  | start (context : Context)
  | stop
  | interrupt (reason : Interruption)
  | peerBlock (announcement : Announcement)
  | difficultyChange (announcement : Announcement)
  | export
  /-- Stops the agent for good, if it is mining. -/
  | close
deriving DecidableEq, Repr

inductive Result
  | started
  | alreadyActive
  | refused (fault : Fault)
  | stopped
  | notActive
  | interrupted (delivered : Bool)
  | noted (accepted delivered : Bool)
  | exported (tally : Tally)
  | done
deriving DecidableEq, Repr

inductive Activity
  | idle
  | startLocking (context : Context)
  | startChecking (context : Context)
  | startRefusing (fault : Fault) (reporting : Reporting)
  | startClaiming (context : Context)
  | startDeciding (context : Context)
  | startFilling (generation : UInt64) (worker : Nat)
  | startReleasing (result : Result)
  | stopLocking
  | stopClaiming
  | stopTaking
  | stopReleasing (run : Option Run)
  | stopSending (run : Run)
  | stopJoining (run : Run)
  | stopAccounting (run : Run)
  | leaving (result : Result)
  | interruptClaiming (reason : Interruption) (notified : Bool)
  | interruptSending (reason : Interruption) (notified : Bool)
  | interruptReleasing (notified delivered : Bool)
  | peerCounting (announcement : Announcement)
  | updating (reason : Interruption) (announcement : Announcement)
  | exporting (loaded : List UInt64)
  | closeClaiming
  | closeLooking
  | closeReleasing (active : Bool)
  /-- A retirement or a report asked for from outside. -/
  | retiring (retirement : Retirement)
  | reporting (reporting : Reporting)
deriving DecidableEq, Repr

def Call.entry : Call → Activity
  | .start context => .startLocking context
  | .stop => .stopLocking
  | .interrupt reason => .interruptClaiming reason false
  | .peerBlock announcement => .peerCounting announcement
  | .difficultyChange announcement => .updating .difficultyChange announcement
  | .export => .exporting []
  | .close => .closeClaiming

structure Engine where
  agent : Agent
  stream : Generator
  tracker : Tracker
  tally : Tally
  reportPath : Option String
  slot : Slot
  lifecycleHolder : Option Nat
  slotHolder : Option Actor
  /-- Every worker ever spawned, by number. -/
  workers : List Worker
  callers : Nat → Activity

structure Circumstances where
  now : Instant
  delayOver : Bool
  answer : Option Answer
  /-- Why a report cannot be written, if it cannot. -/
  writeFailure : Option String

inductive Event
  | logged (entry : LogEntry)
  | drew (stream : Generator)
  | offered (context : Context) (block : Block)
  | answered (answer : Answer)
  | wrote (path : String) (report : Report)
  | returned (result : Result)

namespace Engine

def created (agent : Agent) (stream : Generator) (tracker : Tracker) (tally : Tally)
    (reportPath : Option String) : Engine where
  agent := agent
  stream := stream
  tracker := tracker
  tally := tally
  reportPath := reportPath
  slot := ⟨0, none⟩
  lifecycleHolder := none
  slotHolder := none
  workers := []
  callers := fun _ => .idle

def initial (agent : Agent) : Engine :=
  created agent (.ofSeed agent.identity.agentSeed) .initial .zero none

def setCaller (engine : Engine) (number : Nat) (activity : Activity) : Engine :=
  { engine with callers := fun other => if other = number then activity else engine.callers other }

def changeWorker (engine : Engine) (number : Nat) (change : Worker → Worker) : Engine :=
  { engine with workers := engine.workers.modify number change }

def moveWorker (engine : Engine) (number : Nat) (position : Position) : Engine :=
  engine.changeWorker number fun worker => { worker with position := position }

def receives (engine : Engine) (number : Nat) : Bool :=
  match engine.workers[number]? with
  | some worker => worker.position ≠ .exited
  | none => false

/-- Sends a signal to a worker; one that has exited gets nothing. -/
def send (engine : Engine) (number : Nat) (signal : Signal) : Engine :=
  if engine.receives number then
    engine.changeWorker number fun worker =>
      { worker with mailbox := worker.mailbox.send signal }
  else engine

def disconnect (engine : Engine) (number : Nat) : Engine :=
  engine.changeWorker number fun worker =>
    { worker with mailbox := worker.mailbox.disconnect }

def isMining (engine : Engine) : Bool := engine.slot.active.isSome

def report (engine : Engine) (tally : Tally) : Report :=
  .ofTally engine.agent.identity.agentId engine.agent.hashrate.perSecond tally

end Engine

end MiningAgent
