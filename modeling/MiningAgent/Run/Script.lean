import MiningAgent.Run.Step

/-!
# Scripted runs

A worker followed on its own: through a script of what happens while each of its
blocks is with the broadcaster, or through a single announcement.
-/

namespace MiningAgent

structure ScriptStep where
  announcements : List Announcement
  signals : List Signal
  closes : Bool
  answer : Answer

namespace ScriptStep

/-- Behind the end of a script a stop is sent and the block is accepted. -/
def ending : ScriptStep := ⟨[], [.stop], false, .accepted⟩

end ScriptStep

namespace Engine

/-- An agent whose only worker is about to enter its loop, with a given queue and no
run in the slot. -/
def ofWorker (agent : Agent) (tracker : Tracker) (worker : Worker) : Engine :=
  { initial agent with tracker := tracker, workers := [worker] }

def announceAll (engine : Engine) (announcements : List Announcement) :
    Engine × List Event :=
  announcements.foldl
    (fun (current, events) announcement =>
      let (verdict, tracker) := current.tracker.update announcement
      ({ current with tracker := tracker },
        events ++ ((verdict.entry? announcement).map Event.logged).toList))
    (engine, [])

/-- Sends signals to a worker, unless its queue has no sender any more. -/
def sendAll (engine : Engine) (number : Nat) (signals : List Signal) : Engine :=
  if (engine.workers[number]?).any (·.mailbox.connected) then
    signals.foldl (fun current signal => current.send number signal) engine
  else engine

def playStep (engine : Engine) (number : Nat) (circumstances : Circumstances)
    (step : ScriptStep) : Engine × List Event :=
  let (announced, heard) := engine.announceAll step.announcements
  let signalled := announced.sendAll number step.signals
  let closed := if step.closes then signalled.disconnect number else signalled
  match closed.stepWorker number { circumstances with answer := some step.answer } with
  | some (answered, events) => (answered, heard ++ events)
  | none => (closed, heard)

def playBlock (engine : Engine) (number : Nat) (circumstances : Circumstances)
    (step : ScriptStep) : Engine × List Event :=
  let (arrived, events) := engine.runWorker number endless circumstances
  match (arrived.workers[number]?).bind Worker.pending? with
  | some _ =>
      let (answered, more) := arrived.playStep number circumstances step
      (answered, events ++ more)
  | none => (arrived, events)

/-- Follows a worker through a script until it exits.  Behind the end of the script
the next block is the last. -/
def play (number : Nat) (circumstances : Circumstances) :
    List ScriptStep → Engine → Engine × List Event
  | [], engine =>
      let (answered, events) := engine.playBlock number circumstances .ending
      let (exited, more) := answered.runWorker number endless circumstances
      (exited, events ++ more)
  | step :: rest, engine =>
      let (answered, events) := engine.playBlock number circumstances step
      let (exited, more) := play number circumstances rest answered
      (exited, events ++ more)

def finishIteration (number : Nat) (circumstances : Circumstances) :
    Nat → Engine → Engine × List Event
  | 0, engine => (engine, [])
  | bound + 1, engine =>
      if (engine.workers[number]?).any fun worker => worker.position = .reading then
        (engine, [])
      else
        match engine.stepWorker number circumstances with
        | none => (engine, [])
        | some (next, events) =>
            let (final, later) := finishIteration number circumstances bound next
            (final, events ++ later)

def reactionBound : Nat := 40

structure Announced where
  engine : Engine
  events : List Event
  deliveries : List Delivery

/-- Follows a worker whose delay has just run out until its next iteration. -/
def announce (engine : Engine) (number : Nat) (broadcaster : Broadcaster) (task : Task)
    (circumstances : Circumstances) : Announced :=
  let (offered, minting) :=
    (engine.moveWorker number (.minting task)).runWorker number 0 circumstances
  match offered.workers[number]?, (offered.workers[number]?).bind Worker.pending? with
  | some worker, some block =>
      let effect := broadcaster.broadcast worker.context block
      let (final, handling) :=
        finishIteration number { circumstances with answer := some effect.answer }
          reactionBound offered
      ⟨final, minting ++ effect.entries.map .logged ++ handling, effect.deliveries⟩
  | _, _ => ⟨offered, minting, []⟩

end Engine

end MiningAgent
