import MiningAgent.Run.Shared

/-!
# The steps of a caller

Starts and stops hold the lifecycle lock from their first step to their last.  A
start spawns the worker while it holds the slot lock, so nobody sees a worker
without its run.  A stop takes the run out of the slot, sends the stop and waits for
the worker to exit, all without holding the slot lock.
-/

namespace MiningAgent

namespace Engine

def finish (engine : Engine) (number : Nat) (result : Result) : Engine × List Event :=
  (engine.setCaller number .idle, [.returned result])

def takeSlot (engine : Engine) (number : Nat) (next : Activity) :
    Option (Engine × List Event) :=
  if engine.slotHolder = none then
    some (({ engine with slotHolder := some (.caller number) }).setCaller number next, [])
  else none

def takeLifecycle (engine : Engine) (number : Nat) (next : Activity) :
    Option (Engine × List Event) :=
  if engine.lifecycleHolder = none then
    some (({ engine with lifecycleHolder := some number }).setCaller number next, [])
  else none

def releaseSlot (engine : Engine) : Engine := { engine with slotHolder := none }

/-- Spawns the worker of the next generation.  It may run before its run is in the
slot. -/
def spawn (engine : Engine) (context : Context) : Engine :=
  { engine with
    workers := engine.workers ++
      [⟨engine.slot.lastGeneration + 1, context, .fresh, .entering⟩] }

def failSpawn (engine : Engine) (number : Nat) (reason : String) :
    Option (Engine × List Event) :=
  match engine.callers number, engine.slot.active with
  | .startDeciding _, none =>
      let fault := Fault.worker ("Failed to spawn mining worker: " ++ reason)
      some (engine.setCaller number (.startReleasing (.refused fault)),
        [.logged (.workerMissing reason)])
  | _, _ => none

/-- Applies an announcement to the tracker.  An accepted one goes on to interrupt. -/
def applyUpdate (engine : Engine) (number : Nat) (reason : Interruption)
    (announcement : Announcement) : Engine × List Event :=
  let heard : List Event :=
    match reason with
    | .peerBlock => []
    | .difficultyChange => [.logged (.difficultyAnnounced announcement)]
  let (verdict, tracker) := engine.tracker.update announcement
  let remark : List Event := ((verdict.entry? announcement).map Event.logged).toList
  let changed := { engine with tracker := tracker }
  match verdict with
  | .accepted => (changed.setCaller number (.interruptClaiming reason true), heard ++ remark)
  | _ =>
      let (finished, returned) := changed.finish number (.noted false false)
      (finished, heard ++ remark ++ returned)

/-- One step of a caller, unless it is idle or blocked by a lock or a join. -/
def stepCaller (engine : Engine) (number : Nat) (circumstances : Circumstances) :
    Option (Engine × List Event) :=
  match engine.callers number with
  | .idle => none
  | .startLocking context => engine.takeLifecycle number (.startChecking context)
  | .startChecking context =>
      if engine.agent.hashrate.perSecond = 0 then
        let fault := Fault.invalidRate 0 engine.tracker.current.difficulty
        some (engine.setCaller number (.startRefusing fault (.counting fault)), [])
      else some (engine.setCaller number (.startClaiming context), [])
  | .startRefusing fault .done => some (engine.setCaller number (.leaving (.refused fault)), [])
  | .startRefusing fault reporting =>
      let (next, changed, events) := engine.stepReporting circumstances reporting
      some (changed.setCaller number (.startRefusing fault next), events)
  | .startClaiming context => engine.takeSlot number (.startDeciding context)
  | .startDeciding context =>
      match engine.slot.active with
      | some _ =>
          some (engine.setCaller number (.startReleasing .alreadyActive),
            [.logged .alreadyActive])
      | none =>
          some ((engine.spawn context).setCaller number
            (.startFilling (engine.slot.lastGeneration + 1) engine.workers.length), [])
  | .startFilling generation worker =>
      let run : Run := ⟨generation, worker, circumstances.now⟩
      some (({ engine with slot := ⟨generation, some run⟩ }).setCaller number
        (.startReleasing .started), [.logged .started])
  | .startReleasing result =>
      some (engine.releaseSlot.setCaller number (.leaving result), [])
  | .stopLocking => engine.takeLifecycle number .stopClaiming
  | .stopClaiming => engine.takeSlot number .stopTaking
  | .stopTaking =>
      let emptied := { engine with slot := { engine.slot with active := none } }
      some (emptied.setCaller number (.stopReleasing engine.slot.active), [])
  | .stopReleasing none =>
      some (engine.releaseSlot.setCaller number (.leaving .notActive), [.logged .notActive])
  | .stopReleasing (some run) =>
      some (engine.releaseSlot.setCaller number (.stopSending run), [])
  | .stopSending run =>
      some ((engine.send run.worker .stop).setCaller number (.stopJoining run), [])
  | .stopJoining run =>
      if engine.receives run.worker then none
      else some (engine.setCaller number (.stopAccounting run), [])
  | .stopAccounting run =>
      let elapsed := run.started.elapsed circumstances.now
      some (({ engine with tally := engine.tally.addMiningTime elapsed }).setCaller number
        (.leaving .stopped), [.logged .stopped])
  | .leaving result => some (({ engine with lifecycleHolder := none }).finish number result)
  | .interruptClaiming reason notified =>
      engine.takeSlot number (.interruptSending reason notified)
  | .interruptSending reason notified =>
      match engine.slot.active with
      | some run =>
          if engine.receives run.worker then
            some ((engine.send run.worker (.interrupt reason)).setCaller number
              (.interruptReleasing notified true), [.logged (.interruptSent reason)])
          else some (engine.setCaller number (.interruptReleasing notified false), [])
      | none => some (engine.setCaller number (.interruptReleasing notified false), [])
  | .interruptReleasing notified delivered =>
      some (engine.releaseSlot.finish number
        (if notified then .noted true delivered else .interrupted delivered))
  | .peerCounting announcement =>
      some (({ engine with tally := engine.tally.countPeerBlock }).setCaller number
        (.updating .peerBlock announcement), [.logged (.peerBlockReceived announcement)])
  | .updating reason announcement => some (engine.applyUpdate number reason announcement)
  | .exporting loaded =>
      let loaded := engine.tally.loadNext loaded
      match Tally.ofCounters? loaded with
      | some tally => some (engine.finish number (.exported tally))
      | none => some (engine.setCaller number (.exporting loaded), [])
  | .closeClaiming => engine.takeSlot number .closeLooking
  | .closeLooking => some (engine.setCaller number (.closeReleasing engine.isMining), [])
  | .closeReleasing true => some (engine.releaseSlot.setCaller number .stopLocking, [])
  | .closeReleasing false => some (engine.releaseSlot.finish number .done)
  | .retiring .done => some (engine.finish number .done)
  | .retiring retirement =>
      match engine.stepRetirement (.caller number) circumstances retirement with
      | some (next, changed) => some (changed.setCaller number (.retiring next), [])
      | none => none
  | .reporting .done => some (engine.finish number .done)
  | .reporting reporting =>
      let (next, changed, events) := engine.stepReporting circumstances reporting
      some (changed.setCaller number (.reporting next), events)

end Engine

end MiningAgent
