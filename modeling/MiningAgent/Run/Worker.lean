import MiningAgent.Run.Shared

/-!
# The steps of a worker

An iteration reads the tracker, draws a delay and waits for it.  A signal ends the
wait early, and the next iteration draws afresh: the exponential law has no memory,
so nothing is lost by not resuming a wait.  An undisturbed wait ends in a block,
stamped with what the tracker said when the iteration began.
-/

namespace MiningAgent

namespace Position

def afterWait (task : Task) (confirmed : Bool) : Outcome → Position
  | .expired => if confirmed then .minting task else .confirming task
  | .interrupted _ => .reading
  | .stopped => .leaving

end Position

def Outcome.entries : Outcome → List LogEntry
  | .interrupted reason => [.interrupted reason]
  | _ => []

namespace Engine

/-- One iteration's delay.  An invalid rate sends the worker into retirement. -/
def drawDelay (engine : Engine) (number : Nat) (worker : Worker) (seen : Announcement) :
    Engine × List Event :=
  match Discovery.drawDelay engine.agent.logarithm engine.agent.hashrate.perSecond
      seen.difficulty engine.stream with
  | .ok (delay, stream) =>
      (({ engine with stream := stream }).moveWorker number (.counting ⟨seen, delay⟩),
        [.drew stream])
  | .error fault =>
      (engine.moveWorker number (.retiring (.locking worker.generation) fault), [])

def mintBlock (engine : Engine) (number : Nat) (task : Task) (now : Instant) :
    Engine × List Event :=
  let (nonce, stream) := Discovery.drawNonce engine.stream
  let block : Block :=
    { agentId := engine.agent.identity.agentId
      height := heightAbove task.seen.height
      nonce := nonce
      timestamp := now.wall
      difficulty := task.seen.difficulty }
  (({ engine with stream := stream }).moveWorker number (.offering block),
    [.drew stream, .logged (.blockFound task.delay)])

/-- One step of a worker, unless it is blocked: in a wait, by the slot lock or in
the broadcaster. -/
def stepWorker (engine : Engine) (number : Nat) (circumstances : Circumstances) :
    Option (Engine × List Event) :=
  match engine.workers[number]? with
  | none => none
  | some worker =>
      match worker.position with
      | .entering => some (engine.moveWorker number .reading, [.logged .loopStarted])
      | .reading => some (engine.moveWorker number (.drawing engine.tracker.current), [])
      | .drawing seen => some (engine.drawDelay number worker seen)
      | .counting task =>
          some
            (({ engine with tally := engine.tally.countIteration }).moveWorker number
                (.waiting task false .listening),
              [.logged (.iteration task.seen.difficulty engine.agent.hashrate.perSecond
                task.delay)])
      | .waiting task confirmed (.over outcome) =>
          some (engine.moveWorker number (.afterWait task confirmed outcome),
            outcome.entries.map .logged)
      | .waiting task confirmed wait =>
          match wait.step worker.mailbox circumstances.delayOver with
          | some (next, mailbox) =>
              some
                (engine.changeWorker number fun worker =>
                  { worker with mailbox := mailbox, position := .waiting task confirmed next },
                  [])
          | none => none
      | .confirming task =>
          if worker.mailbox.queue = [] then some (engine.moveWorker number (.minting task), [])
          else some (engine.moveWorker number (.waiting task true .listening), [])
      | .minting task => some (engine.mintBlock number task circumstances.now)
      | .offering block =>
          some (engine.moveWorker number (.broadcasting block),
            [.offered worker.context block])
      | .broadcasting block =>
          match circumstances.answer with
          | none => none
          | some .accepted =>
              some (engine.moveWorker number (.crediting block), [.answered .accepted])
          | some (.rejected fault) =>
              some (engine.moveWorker number (.failing (.counting fault)),
                [.answered (.rejected fault)])
      | .crediting block =>
          some
            (({ engine with tally := engine.tally.countBlock }).moveWorker number
                (.dating block), [])
      | .dating block =>
          some
            (({ engine with tally := engine.tally.dateBlock block.timestamp }).moveWorker number
                .reading, [.logged (.blockAccepted block)])
      | .failing .done => some (engine.moveWorker number .reading, [])
      | .failing reporting =>
          let (next, changed, events) := engine.stepReporting circumstances reporting
          some (changed.moveWorker number (.failing next), events)
      | .retiring .done fault =>
          some (engine.moveWorker number (.dying (.counting fault)), [])
      | .retiring retirement fault =>
          match engine.stepRetirement (.worker number) circumstances retirement with
          | some (next, changed) => some (changed.moveWorker number (.retiring next fault), [])
          | none => none
      | .dying .done => some (engine.moveWorker number .leaving, [])
      | .dying reporting =>
          let (next, changed, events) := engine.stepReporting circumstances reporting
          some (changed.moveWorker number (.dying next), events)
      | .leaving => some (engine.moveWorker number .exited, [.logged .loopStopped])
      | .exited => none

end Engine

end MiningAgent
