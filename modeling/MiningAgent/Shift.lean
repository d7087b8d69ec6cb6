import MiningAgent.CommandLine.Options
import MiningAgent.Session

/-!
# Shifts

An agent that mines by itself for a fixed time.  Meanwhile its blocks go to the log,
imagined peers find blocks at a fixed interval, and its counters are reported at
another.  Whoever keeps the time asks when the shift is due next and lets it advance
then.
-/

namespace MiningAgent

open CommandLine

structure Shift where
  session : Session
  /-- All times count nanoseconds of the steady clock. -/
  deadline : Nat
  peerInterval : Nat
  reportInterval : Nat
  waitBegan : Nat
  lastPeerBlock : Nat
  lastReport : Nat
  height : UInt64

namespace Shift

def circumstances (now : Instant) (answer : Option Answer) : Circumstances :=
  ⟨now, false, answer, none⟩

/-- Nobody outside a shift makes its worker wait out a delay. -/
def patience : UInt64 := 0

def after (shift : Shift) (now : Instant) (session : Session) (events : List Event) : Shift :=
  let redrawn := (Event.entries events).any fun entry =>
    match entry with
    | .iteration _ _ _ => true
    | _ => false
  { shift with
    session := session
    waitBegan := if redrawn then now.steady.toNat else shift.waitBegan }

/-- Begins a shift: the difficulty is announced and mining is asked for. -/
def start (logarithm : Rat → Rat) (settings : Settings) (options : RunOptions)
    (now : Instant) : Except Fault (Shift × List Event) := do
  let (session, ready) ← Session.ofSettings logarithm settings patience
  let here := circumstances now none
  let announced := session.call (.difficultyChange ⟨options.difficulty, 0⟩) here
  let context : Context :=
    .ofWallet ("agent" ++ toString settings.agentId.toNat)
  let asked := announced.session.requestStart context here
  let events := ready ++ announced.own ++ asked.own ++ asked.workers
  if asked.result then
    let time := now.steady.toNat
    let shift : Shift :=
      { session := asked.session
        deadline := time + options.duration.toNat * 1000000000
        peerInterval := options.peerInterval.toNat * 1000000
        reportInterval := settings.reportInterval.toNat * 1000000000
        waitBegan := time
        lastPeerBlock := time
        lastReport := time
        height := 0 }
    return (shift, events)
  else throw (.worker "Mining could not be started")

def isOver (shift : Shift) (now : Instant) : Bool := shift.deadline ≤ now.steady.toNat

def broadcast (shift : Shift) : Broadcaster.Effect :=
  match shift.session.engine.announcing? with
  | some (_, worker, block) => Broadcaster.log.broadcast worker.context block
  | none => ⟨.accepted, [], []⟩

/-- Lets the worker's delay run out, so that it finds its block, and hands the block
over. -/
def discover (shift : Shift) (now : Instant) : Shift × List Event :=
  let (found, finding) :=
    shift.session.engine.settle Engine.endless (circumstances now none)
  let session := { shift.session with engine := found }
  let effect := broadcast { shift with session := session }
  let turn := session.answer (circumstances now (some effect.answer))
  let events := finding ++ effect.entries.map .logged ++ turn.workers
  (shift.after now turn.session events, events)

def discoveryDue? (shift : Shift) : Option Nat :=
  if shift.session.engine.announcing?.isSome then some shift.waitBegan
  else
    (shift.session.engine.workers.findSome? Worker.delay?).map fun delay =>
      shift.waitBegan + delay.toNat

def peerBlockDue? (shift : Shift) : Option Nat :=
  if shift.peerInterval = 0 then none else some (shift.lastPeerBlock + shift.peerInterval)

/-- An imagined peer finds a block one height above the last, at the difficulty in
effect. -/
def meetPeer (shift : Shift) (now : Instant) : Shift × List Event :=
  let height := shift.height + 1
  let difficulty := shift.session.engine.tracker.current.difficulty
  let turn := shift.session.call (.peerBlock ⟨difficulty, height⟩) (circumstances now none)
  let events := turn.own ++ turn.workers
  ({ shift.after now turn.session events with
      height := height, lastPeerBlock := now.steady.toNat }, events)

def reportDue (shift : Shift) : Nat := shift.lastReport + shift.reportInterval

def report (shift : Shift) (now : Instant) : Shift × List Event :=
  let engine := shift.session.engine
  ({ shift with lastReport := now.steady.toNat },
    [.logged (.periodicReport engine.agent.identity.agentId engine.tally)])

def due (shift : Shift) : Nat :=
  let times := shift.discoveryDue?.toList ++ shift.peerBlockDue?.toList ++ [shift.reportDue]
  times.foldl min shift.deadline

def advance (shift : Shift) (now : Instant) : Shift × List Event :=
  let time := now.steady.toNat
  if shift.discoveryDue?.any (· ≤ time) then shift.discover now
  else if shift.peerBlockDue?.any (· ≤ time) then shift.meetPeer now
  else if shift.reportDue ≤ time then shift.report now
  else (shift, [])

/-- Ends a shift: mining is stopped.  A block that is still pending is handed over
first. -/
def finish (shift : Shift) (now : Instant) : Shift × List Event :=
  let effect := shift.broadcast
  let turn := shift.session.requestStop (circumstances now (some effect.answer))
  ({ shift with session := turn.session },
    effect.entries.map .logged ++ turn.workers ++ turn.own)

end Shift

end MiningAgent
