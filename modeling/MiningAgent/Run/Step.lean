import MiningAgent.Run.Caller
import MiningAgent.Run.Worker

/-!
# Interleavings

At any moment an idle caller may begin a call, or any actor that is not blocked may
make its next step.  `Engine.Reaches` collects every history that this allows.

`runWorker` and `runCaller` follow one actor until it is blocked, which is how a
single thread of control drives the agent.
-/

namespace MiningAgent

namespace Engine

def step (engine : Engine) (actor : Actor) (circumstances : Circumstances) :
    Option (Engine × List Event) :=
  match actor with
  | .caller number => engine.stepCaller number circumstances
  | .worker number => engine.stepWorker number circumstances

def begin (engine : Engine) (number : Nat) (call : Call) : Option Engine :=
  match engine.callers number with
  | .idle => some (engine.setCaller number call.entry)
  | _ => none

inductive Move
  | call (number : Nat) (call : Call)
  | step (actor : Actor) (circumstances : Circumstances)
  /-- The system has no worker for a start. -/
  | failSpawn (number : Nat) (reason : String)
  /-- Somebody changes where a fatal error leaves a report. -/
  | setReportPath (path : Option String)

def move? (engine : Engine) : Move → Option (Engine × List Event)
  | .call number call => (engine.begin number call).map fun begun => (begun, [])
  | .step actor circumstances => engine.step actor circumstances
  | .failSpawn number reason => engine.failSpawn number reason
  | .setReportPath path => some ({ engine with reportPath := path }, [])

/-- A move, the engine it found, the events it showed and the engine it left. -/
structure Moment where
  before : Engine
  move : Move
  events : List Event
  after : Engine

abbrev History := List Moment

/-- `start.Reaches history engine`: the history leads from `start` to `engine`. -/
inductive Reaches (start : Engine) : History → Engine → Prop
  | refl : Reaches start [] start
  | move {history : History} {engine next : Engine} {move : Move} {events : List Event} :
      Reaches start history engine → engine.move? move = some (next, events) →
      Reaches start (history ++ [⟨engine, move, events, next⟩]) next

/-- What a list of moves leads to, up to the first that is not possible. -/
def record (engine : Engine) : List Move → History × Engine
  | [] => ([], engine)
  | move :: rest =>
      match engine.move? move with
      | none => ([], engine)
      | some (next, events) =>
          let (history, last) := next.record rest
          (⟨engine, move, events, next⟩ :: history, last)

end Engine

namespace Reporting

def remaining : Reporting → Nat
  | counting _ => 10
  | judging _ => 9
  | loading _ loaded => 2 + (6 - loaded.length)
  | writing _ _ => 1
  | done => 0

end Reporting

namespace Retirement

def remaining : Retirement → Nat
  | locking _ => 4
  | claiming _ => 3
  | accounting _ => 2
  | unlocking => 1
  | done => 0

end Retirement

namespace Position

/-- A bound on the steps a worker makes from here without taking a signal and
without an answer of the broadcaster. -/
def remaining : Position → Nat
  | entering => 35
  | failing reporting => 24 + reporting.remaining
  | crediting _ => 24
  | dating _ => 23
  | waiting _ _ (.draining _) => 24
  | waiting _ _ (.over (.interrupted _)) => 23
  | reading => 22
  | drawing _ => 21
  | counting _ => 20
  | waiting _ false .listening => 16
  | waiting _ false .timedOut => 15
  | waiting _ false (.over .expired) => 14
  | confirming _ => 13
  | waiting _ true .listening => 12
  | waiting _ true .timedOut => 11
  | waiting _ true (.over .expired) => 10
  | minting _ => 9
  | offering _ => 8
  | broadcasting _ => 7
  | retiring retirement _ => 14 + retirement.remaining
  | dying reporting => 3 + reporting.remaining
  | waiting _ _ (.over .stopped) => 2
  | leaving => 1
  | exited => 0

end Position

namespace Worker

/-- A bound on the steps a worker makes before it is blocked, if nobody sends and
the broadcaster does not answer.  Every signal it takes may cost an iteration. -/
def remaining (worker : Worker) : Nat :=
  worker.position.remaining + 40 * worker.mailbox.queue.length + 1

def delay? (worker : Worker) : Option UInt64 :=
  match worker.position with
  | .waiting task _ _ => some task.delay
  | _ => none

def pending? (worker : Worker) : Option Block :=
  match worker.position with
  | .broadcasting block => some block
  | _ => none

end Worker

namespace Activity

def remaining : Activity → Nat
  | .idle => 0
  | .startRefusing _ stage => 3 + stage.remaining
  | .reporting stage => 2 + stage.remaining
  | .retiring stage => 2 + stage.remaining
  | .exporting loaded => 2 + (6 - loaded.length)
  | _ => 20

end Activity

namespace Engine

/-- Up to `bound` steps of one actor, until it is blocked. -/
def follow (actor : Actor) (circumstances : Engine → Circumstances) :
    Nat → Engine → Engine × List Event
  | 0, engine => (engine, [])
  | bound + 1, engine =>
      match engine.step actor (circumstances engine) with
      | none => (engine, [])
      | some (next, events) =>
          let (final, later) := follow actor circumstances bound next
          (final, events ++ later)

/-- Runs a caller until its call is over or it has to wait for somebody else. -/
def runCaller (engine : Engine) (number : Nat) (circumstances : Circumstances) :
    Engine × List Event :=
  follow (.caller number) (fun _ => circumstances) (engine.callers number).remaining engine

/-- The longest delay there is: a worker with this patience waits out every delay. -/
def endless : UInt64 := 18446744073709551615

/-- Runs a worker until it is blocked.  It waits out delays of at most `patience`
and gets no answer from the broadcaster. -/
def runWorker (engine : Engine) (number : Nat) (patience : UInt64)
    (circumstances : Circumstances) : Engine × List Event :=
  let here (engine : Engine) : Circumstances :=
    let short :=
      match (engine.workers[number]?).bind Worker.delay? with
      | some delay => decide (delay ≤ patience)
      | none => false
    { circumstances with delayOver := short, answer := none }
  match engine.workers[number]? with
  | none => (engine, [])
  | some worker => follow (.worker number) here worker.remaining engine

def settle (engine : Engine) (patience : UInt64) (circumstances : Circumstances) :
    Engine × List Event :=
  (List.range engine.workers.length).foldl
    (fun (current, events) number =>
      let (next, more) := current.runWorker number patience circumstances
      (next, events ++ more))
    (engine, [])

def announcing? (engine : Engine) : Option (Nat × Worker × Block) :=
  (List.range engine.workers.length).findSome? fun number =>
    (engine.workers[number]?).bind fun worker =>
      worker.pending?.map fun block => (number, worker, block)

end Engine

end MiningAgent
