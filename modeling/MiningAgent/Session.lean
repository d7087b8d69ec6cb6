import MiningAgent.Run.Step
import MiningAgent.Settings.Basic

/-!
# Sessions

A session is an agent as its host uses it: one caller, whose calls run to their end
one after the other, and a worker that runs on between them until it waits for a
long delay or for the broadcaster.
-/

namespace MiningAgent

structure Session where
  engine : Engine
  /-- The longest delay that is waited out, in nanoseconds. -/
  patience : UInt64

structure Turn (α : Type) where
  session : Session
  result : α
  /-- The events of the caller. -/
  own : List Event
  /-- The events of the workers. -/
  workers : List Event

namespace Event

def entries (events : List Event) : List LogEntry :=
  events.filterMap fun event =>
    match event with
    | .logged entry => some entry
    | _ => none

def result? (events : List Event) : Option Result :=
  events.findSome? fun event =>
    match event with
    | .returned result => some result
    | _ => none

def reports (events : List Event) : List (String × Report) :=
  events.filterMap fun event =>
    match event with
    | .wrote path report => some (path, report)
    | _ => none

end Event

namespace Session

def host : Nat := 0

def ofAgent (agent : Agent) (patience : UInt64) : Session × List Event :=
  (⟨.initial agent, patience⟩, [.logged (.streamReady agent.identity)])

def setReportPath (session : Session) (path : Option String) : Session :=
  { session with engine := { session.engine with reportPath := path } }

/-- The session of the agent that settings describe, with its error report in place. -/
def ofSettings (logarithm : Rat → Rat) (settings : Settings) (patience : UInt64) :
    Except Fault (Session × List Event) :=
  settings.check.map fun settings =>
    let (session, events) :=
      ofAgent ⟨settings.identity, ⟨settings.hashrate⟩, logarithm⟩ patience
    (session.setReportPath (some settings.errorReportPath), events)

def settle (session : Session) (circumstances : Circumstances) : Session × List Event :=
  let (engine, events) := session.engine.settle session.patience circumstances
  ({ session with engine := engine }, events)

/-- Follows the host from where it stands.  If it waits for a worker to exit, a
block that the worker is announcing gets its answer first. -/
def complete (session : Session) (circumstances : Circumstances) : Turn Result :=
  let (begun, before) := session.engine.runCaller host circumstances
  match Event.result? before with
  | some result =>
      let (settled, later) := begun.settle session.patience circumstances
      ⟨{ session with engine := settled }, result, before, later⟩
  | none =>
      let (answered, answering) :=
        match begun.announcing? with
        | some (number, _, _) =>
            (begun.stepWorker number circumstances).getD (begun, [])
        | none => (begun, [])
      let (settled, later) := answered.settle session.patience circumstances
      let (ended, after) := settled.runCaller host circumstances
      ⟨{ session with engine := ended }, (Event.result? after).getD .done, before ++ after,
        answering ++ later⟩

def perform (session : Session) (activity : Activity) (circumstances : Circumstances) :
    Turn Result :=
  complete { session with engine := session.engine.setCaller host activity } circumstances

def call (session : Session) (request : Call) (circumstances : Circumstances) : Turn Result :=
  session.perform request.entry circumstances

/-- A request to start.  It is handled unless the start is refused. -/
def requestStart (session : Session) (context : Context) (circumstances : Circumstances) :
    Turn Bool :=
  let turn := session.call (.start context) circumstances
  let asked := Event.logged (.startRequested context)
  match turn.result with
  | .refused fault =>
      ⟨turn.session, false, asked :: turn.own ++ [.logged (.startFailed fault)], turn.workers⟩
  | _ => ⟨turn.session, true, asked :: turn.own, turn.workers⟩

def requestStop (session : Session) (circumstances : Circumstances) : Turn Bool :=
  let turn := session.call .stop circumstances
  ⟨turn.session, true, .logged .stopRequested :: turn.own, turn.workers⟩

def answer (session : Session) (circumstances : Circumstances) : Turn Bool :=
  match session.engine.announcing? with
  | none => ⟨session, false, [], []⟩
  | some (number, _, _) =>
      let (answered, events) :=
        (session.engine.stepWorker number circumstances).getD (session.engine, [])
      let (settled, later) := answered.settle session.patience circumstances
      ⟨{ session with engine := settled }, true, [], events ++ later⟩

def drawUniform (session : Session) : Generator × Session :=
  let drawn := session.engine.stream.next
  (drawn, { session with engine := { session.engine with stream := drawn } })

def drawNonce (session : Session) : UInt32 × Session :=
  let (nonce, drawn) := Discovery.drawNonce session.engine.stream
  (nonce, { session with engine := { session.engine with stream := drawn } })

/-- The report of the moment, and the entry that writing it to `path` leaves. -/
def exportReport (session : Session) (path : String) : Report × LogEntry :=
  (session.engine.report session.engine.tally, .reportWritten path)

/-- Exports the report of the moment.  If it cannot be written, the fault is all that comes of
it. -/
def exportTo (session : Session) (path : String) (circumstances : Circumstances) :
    Except Fault Report × List Event :=
  let (report, entry) := session.exportReport path
  match circumstances.writeFailure with
  | none => (.ok report, [.wrote path report, .logged entry])
  | some reason => (.error (.io reason), [])

end Session

end MiningAgent
