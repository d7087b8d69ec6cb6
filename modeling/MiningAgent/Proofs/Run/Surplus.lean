import MiningAgent.Proofs.Run.History

/-!
# A surplus of peer blocks

The number of peer blocks is counted, loaded and shown, but nothing is decided by it.  An agent
that was told of more peer blocks makes the same moves, and so does an agent some of whose
callers are inside a call that the others do not see.
-/

namespace MiningAgent

/-- The counters of an agent that was told of more peer blocks. -/
def Tally.withPeerBlocks (extra : Nat) (tally : Tally) : Tally :=
  { tally with peerBlocks := tally.peerBlocks + UInt64.ofNat extra }

/-- Counters that were loaded one by one; the number of peer blocks is the third. -/
def loadedWithPeerBlocks (extra : Nat) (loaded : List UInt64) : List UInt64 :=
  loaded.modify 2 (· + UInt64.ofNat extra)

namespace Reporting

def withPeerBlocks (extra : Nat) : Reporting → Reporting
  | loading path loaded => loading path (loadedWithPeerBlocks extra loaded)
  | writing path tally => writing path (tally.withPeerBlocks extra)
  | reporting => reporting

theorem withPeerBlocks_ne_done {stage : Reporting} (unfinished : stage ≠ done) (extra : Nat) :
    stage.withPeerBlocks extra ≠ done := by
  cases stage with
  | done => exact absurd rfl unfinished
  | _ => simp [withPeerBlocks]

/-- Whether the number of peer blocks has been loaded. -/
def hasPeerBlocks : Reporting → Bool
  | loading _ loaded => decide (2 < loaded.length)
  | writing _ _ => true
  | _ => false

end Reporting

namespace Result

def withPeerBlocks (extra : Nat) : Result → Result
  | exported tally => exported (tally.withPeerBlocks extra)
  | result => result

def hasPeerBlocks : Result → Bool
  | exported _ => true
  | _ => false

end Result

namespace Activity

def withPeerBlocks (extra : Nat) : Activity → Activity
  | startRefusing fault stage => startRefusing fault (stage.withPeerBlocks extra)
  | exporting loaded => exporting (loadedWithPeerBlocks extra loaded)
  | reporting stage => reporting (stage.withPeerBlocks extra)
  | startReleasing result => startReleasing (result.withPeerBlocks extra)
  | leaving result => leaving (result.withPeerBlocks extra)
  | activity => activity

def hasPeerBlocks : Activity → Bool
  | startRefusing _ stage => stage.hasPeerBlocks
  | exporting loaded => decide (2 < loaded.length)
  | reporting stage => stage.hasPeerBlocks
  | startReleasing result => result.hasPeerBlocks
  | leaving result => result.hasPeerBlocks
  | _ => false

end Activity

namespace Position

def withPeerBlocks (extra : Nat) : Position → Position
  | failing reporting => failing (reporting.withPeerBlocks extra)
  | dying reporting => dying (reporting.withPeerBlocks extra)
  | position => position

def hasPeerBlocks : Position → Bool
  | failing reporting => reporting.hasPeerBlocks
  | dying reporting => reporting.hasPeerBlocks
  | _ => false

end Position

def Worker.withPeerBlocks (extra : Nat) (worker : Worker) : Worker :=
  { worker with position := worker.position.withPeerBlocks extra }

def Event.withPeerBlocks (extra : Nat) : Event → Event
  | .wrote path report => .wrote path { report with tally := report.tally.withPeerBlocks extra }
  | .returned result => .returned (result.withPeerBlocks extra)
  | event => event

@[simp]
theorem Tally.withPeerBlocks_zero (tally : Tally) : tally.withPeerBlocks 0 = tally := by
  simp [withPeerBlocks]

theorem length_loadedWithPeerBlocks (extra : Nat) (loaded : List UInt64) :
    (loadedWithPeerBlocks extra loaded).length = loaded.length := by
  simp [loadedWithPeerBlocks]

@[simp]
theorem loadedWithPeerBlocks_zero (loaded : List UInt64) :
    loadedWithPeerBlocks 0 loaded = loaded := by
  apply List.ext_getElem?
  intro place
  simp [loadedWithPeerBlocks, List.getElem?_modify]

namespace Reporting

@[simp]
theorem withPeerBlocks_zero (stage : Reporting) : stage.withPeerBlocks 0 = stage := by
  cases stage <;> simp [withPeerBlocks]

theorem hasPeerBlocks_withPeerBlocks (stage : Reporting) (extra : Nat) :
    (stage.withPeerBlocks extra).hasPeerBlocks = stage.hasPeerBlocks := by
  cases stage <;> simp [withPeerBlocks, hasPeerBlocks, length_loadedWithPeerBlocks]

end Reporting

namespace Activity

@[simp]
theorem withPeerBlocks_zero (activity : Activity) : activity.withPeerBlocks 0 = activity := by
  cases activity with
  | startReleasing result | leaving result =>
      cases result <;> simp [withPeerBlocks, Result.withPeerBlocks]
  | _ => simp [withPeerBlocks]

theorem hasPeerBlocks_withPeerBlocks (activity : Activity) (extra : Nat) :
    (activity.withPeerBlocks extra).hasPeerBlocks = activity.hasPeerBlocks := by
  cases activity with
  | startReleasing result | leaving result => cases result <;> rfl
  | startRefusing fault stage | reporting stage => exact stage.hasPeerBlocks_withPeerBlocks extra
  | exporting loaded => simp only [withPeerBlocks, hasPeerBlocks, length_loadedWithPeerBlocks]
  | _ => rfl

end Activity

namespace Position

@[simp]
theorem withPeerBlocks_zero (position : Position) : position.withPeerBlocks 0 = position := by
  cases position <;> simp [withPeerBlocks]

theorem hasPeerBlocks_withPeerBlocks (position : Position) (extra : Nat) :
    (position.withPeerBlocks extra).hasPeerBlocks = position.hasPeerBlocks := by
  cases position with
  | failing stage | dying stage => exact stage.hasPeerBlocks_withPeerBlocks extra
  | _ => rfl

end Position

/-- What one agent has and another has not: callers inside a call, and peer blocks. -/
structure Surplus where
  /-- What the callers do that are inside a call of the one agent only. -/
  inside : Nat → Option Activity
  /-- The peer blocks that only the one agent counted. -/
  counted : Nat
  /-- Their number when an actor loaded the number of peer blocks. -/
  loaded : Actor → Nat

namespace Surplus

def none : Surplus := ⟨fun _ => .none, 0, fun _ => 0⟩

/-- What an actor has loaded from now on. -/
def load (surplus : Surplus) (actor : Actor) (extra : Nat) : Surplus :=
  { surplus with
    loaded := fun other => if other = actor then extra else surplus.loaded other }

theorem load_self (surplus : Surplus) (actor : Actor) :
    surplus.load actor (surplus.loaded actor) = surplus := by
  simp only [load]
  congr
  funext other
  split
  · rename_i same
    rw [same]
  · rfl

end Surplus

namespace Engine

/-- The agent that has a surplus over this one. -/
def withSurplus (surplus : Surplus) (engine : Engine) : Engine :=
  { engine with
    tally := engine.tally.withPeerBlocks surplus.counted
    workers := engine.workers.mapIdx fun number worker =>
      worker.withPeerBlocks (surplus.loaded (.worker number))
    callers := fun number =>
      (surplus.inside number).getD
        ((engine.callers number).withPeerBlocks (surplus.loaded (.caller number))) }

def hasPeerBlocks (engine : Engine) : Actor → Bool
  | .caller number => (engine.callers number).hasPeerBlocks
  | .worker number =>
      match engine.workers[number]? with
      | some worker => worker.position.hasPeerBlocks
      | none => false

/-- How many peer blocks more an actor has loaded after its step. -/
def extra (engine : Engine) (surplus : Surplus) (actor : Actor) : Nat :=
  if engine.hasPeerBlocks actor then surplus.loaded actor else surplus.counted

/-- What a move shows more. -/
def shown (engine : Engine) (surplus : Surplus) : Move → Nat
  | .step actor _ => engine.extra surplus actor
  | _ => 0

/-- The surplus after a move that both agents make. -/
def carry (engine : Engine) (surplus : Surplus) : Move → Surplus
  | .step actor _ => surplus.load actor (engine.extra surplus actor)
  | _ => surplus

end Engine

/-- Whether a move is made by somebody who is not inside a hidden call. -/
def Surplus.Sees (surplus : Surplus) (move : Engine.Move) : Prop :=
  ∀ number, move.caller? = some number → surplus.inside number = .none

/-- The moment of the agent that has a surplus. -/
def Engine.Moment.withSurplus (surplus : Surplus) (moment : Moment) : Moment where
  before := moment.before.withSurplus surplus
  move := moment.move
  events := moment.events.map
    (Event.withPeerBlocks (moment.before.shown surplus moment.move))
  after := moment.after.withSurplus (moment.before.carry surplus moment.move)

variable {extra counted : Nat}

/-- The number of peer blocks is loaded as it is now, unless it was loaded before. -/
theorem Tally.loadNext_withPeerBlocks (tally : Tally) (loaded : List UInt64) :
    (tally.withPeerBlocks counted).loadNext (loadedWithPeerBlocks extra loaded) =
      loadedWithPeerBlocks (if decide (2 < loaded.length) then extra else counted)
        (tally.loadNext loaded) := by
  match loaded with
  | [] | [_] | [_, _] | [_, _, _] | [_, _, _, _] | [_, _, _, _, _] => rfl
  | _ :: _ :: _ :: _ :: _ :: _ :: _ =>
      simp [loadNext, counters, loadedWithPeerBlocks]

theorem Tally.ofCounters?_withPeerBlocks (loaded : List UInt64) :
    Tally.ofCounters? (loadedWithPeerBlocks extra loaded) =
      (Tally.ofCounters? loaded).map (Tally.withPeerBlocks extra) := by
  match loaded with
  | [] | [_] | [_, _] | [_, _, _] | [_, _, _, _] | [_, _, _, _, _] => rfl
  | [_, _, _, _, _, _] => rfl
  | _ :: _ :: _ :: _ :: _ :: _ :: _ :: _ => rfl

theorem Tally.countPeerBlock_withPeerBlocks (tally : Tally) :
    (tally.withPeerBlocks extra).countPeerBlock = tally.countPeerBlock.withPeerBlocks extra := by
  simp only [countPeerBlock, withPeerBlocks, mk.injEq, true_and, and_true]
  rw [UInt64.add_assoc, UInt64.add_comm (UInt64.ofNat extra), ← UInt64.add_assoc]

namespace Engine

variable {engine next : Engine} {surplus : Surplus} {number : Nat}
  {circumstances : Circumstances} {events : List Event} {move : Move}

@[simp]
theorem withSurplus_agent : (engine.withSurplus surplus).agent = engine.agent := rfl

@[simp]
theorem withSurplus_stream : (engine.withSurplus surplus).stream = engine.stream := rfl

@[simp]
theorem withSurplus_tracker : (engine.withSurplus surplus).tracker = engine.tracker := rfl

@[simp]
theorem withSurplus_tally : (engine.withSurplus surplus).tally =
    engine.tally.withPeerBlocks surplus.counted := rfl

@[simp]
theorem withSurplus_slot : (engine.withSurplus surplus).slot = engine.slot := rfl

@[simp]
theorem withSurplus_lifecycleHolder :
    (engine.withSurplus surplus).lifecycleHolder = engine.lifecycleHolder := rfl

@[simp]
theorem withSurplus_slotHolder :
    (engine.withSurplus surplus).slotHolder = engine.slotHolder := rfl

theorem withSurplus_callers (outside : surplus.inside number = none) :
    (engine.withSurplus surplus).callers number =
      (engine.callers number).withPeerBlocks (surplus.loaded (.caller number)) := by
  simp [withSurplus, outside]

theorem withSurplus_getElem? :
    (engine.withSurplus surplus).workers[number]? =
      (engine.workers[number]?).map
        (Worker.withPeerBlocks (surplus.loaded (.worker number))) := by
  simp [withSurplus]

theorem withSurplus_setCaller {activity : Activity} (outside : surplus.inside number = none) :
    (engine.setCaller number activity).withSurplus (surplus.load (.caller number) extra) =
      (engine.withSurplus surplus).setCaller number (activity.withPeerBlocks extra) := by
  simp only [withSurplus, setCaller, Surplus.load, mk.injEq, true_and]
  refine ⟨by simp, ?_⟩
  funext other
  by_cases own : other = number
  · simp [own, outside]
  · simp [own]

theorem withSurplus_changeWorker {change same : Worker → Worker}
    (commutes : ∀ worker, (change worker).withPeerBlocks extra =
      same (worker.withPeerBlocks (surplus.loaded (.worker number)))) :
    (engine.changeWorker number change).withSurplus (surplus.load (.worker number) extra) =
      (engine.withSurplus surplus).changeWorker number same := by
  simp only [withSurplus, changeWorker, Surplus.load, mk.injEq, true_and]
  refine ⟨?_, by simp⟩
  apply List.ext_getElem?
  intro other
  simp only [List.getElem?_mapIdx, List.getElem?_modify]
  by_cases own : number = other
  · subst own
    cases engine.workers[number]? with
    | none => rfl
    | some worker => simp [commutes]
  · have apart : ¬ other = number := fun equal => own equal.symm
    simp [own, apart]

theorem withSurplus_moveWorker {position : Position} :
    (engine.moveWorker number position).withSurplus (surplus.load (.worker number) extra) =
      (engine.withSurplus surplus).moveWorker number (position.withPeerBlocks extra) :=
  withSurplus_changeWorker fun _ => rfl

theorem withSurplus_length :
    (engine.withSurplus surplus).workers.length = engine.workers.length := by
  simp [withSurplus]

/-- A change that leaves the worker where it is. -/
theorem withSurplus_touch {change : Worker → Worker}
    (commutes : ∀ worker, (change worker).withPeerBlocks (surplus.loaded (.worker number)) =
      change (worker.withPeerBlocks (surplus.loaded (.worker number)))) :
    (engine.changeWorker number change).withSurplus surplus =
      (engine.withSurplus surplus).changeWorker number change := by
  rw [← withSurplus_changeWorker commutes, Surplus.load_self]

theorem withSurplus_receives :
    (engine.withSurplus surplus).receives number = engine.receives number := by
  simp only [receives, withSurplus_getElem?]
  cases engine.workers[number]? with
  | none => rfl
  | some worker => cases standing : worker.position <;>
      simp [Worker.withPeerBlocks, Position.withPeerBlocks, standing]

theorem withSurplus_send {signal : Signal} :
    (engine.send number signal).withSurplus surplus =
      (engine.withSurplus surplus).send number signal := by
  simp only [send, withSurplus_receives]
  split
  · exact withSurplus_touch fun _ => rfl
  · rfl

theorem withSurplus_disconnect :
    (engine.disconnect number).withSurplus surplus =
      (engine.withSurplus surplus).disconnect number :=
  withSurplus_touch fun _ => rfl

theorem withSurplus_spawn {context : Context} :
    (engine.spawn context).withSurplus surplus =
      (engine.withSurplus surplus).spawn context := by
  simp only [withSurplus, spawn, List.mapIdx_append, List.mapIdx_cons, List.mapIdx_nil]
  rfl

/-! ## Steps of an agent that has a surplus -/

theorem stepReporting_withSurplus (reporting : Reporting) :
    (engine.withSurplus surplus).stepReporting circumstances (reporting.withPeerBlocks extra) =
      let more := if reporting.hasPeerBlocks then extra else surplus.counted
      let (stage, changed, events) := engine.stepReporting circumstances reporting
      (stage.withPeerBlocks more, changed.withSurplus surplus,
        events.map (Event.withPeerBlocks more)) := by
  cases reporting with
  | counting fault =>
      have commutes : (engine.tally.withPeerBlocks surplus.counted).countError =
        engine.tally.countError.withPeerBlocks surplus.counted := rfl
      simp only [stepReporting, Reporting.withPeerBlocks, withSurplus, commutes]
      rfl
  | judging fault =>
      simp only [stepReporting, Reporting.withPeerBlocks, withSurplus]
      split
      · rfl
      · rfl
  | loading path loaded =>
      simp only [stepReporting, Reporting.withPeerBlocks, Reporting.hasPeerBlocks,
        withSurplus_tally,
        Tally.loadNext_withPeerBlocks, Tally.ofCounters?_withPeerBlocks]
      cases Tally.ofCounters? (engine.tally.loadNext loaded) with
      | none => rfl
      | some tally => rfl
  | writing path tally =>
      simp only [stepReporting, Reporting.withPeerBlocks]
      cases circumstances.writeFailure with
      | none => rfl
      | some reason => rfl
  | done => rfl

theorem stepRetirement_withSurplus (actor : Actor) (retirement : Retirement) :
    (engine.withSurplus surplus).stepRetirement actor circumstances retirement =
      (engine.stepRetirement actor circumstances retirement).map fun (stage, changed) =>
        (stage, changed.withSurplus surplus) := by
  cases retirement with
  | locking generation =>
      by_cases free : engine.slotHolder = none
      · simp only [stepRetirement, withSurplus_slotHolder, free, if_true]
        rfl
      · simp only [stepRetirement, withSurplus_slotHolder, free, if_false]
        rfl
  | claiming generation =>
      simp only [stepRetirement, withSurplus_slot]
      split
      · split
        · rfl
        · rfl
      · rfl
  | accounting run =>
      simp only [stepRetirement, Option.map_some, withSurplus_disconnect]
      rfl
  | unlocking => rfl
  | done => rfl

theorem takeLifecycle_withSurplus {activity : Activity}
    (outside : surplus.inside number = none) :
    (engine.withSurplus surplus).takeLifecycle number (activity.withPeerBlocks extra) =
      (engine.takeLifecycle number activity).map fun (next, events) =>
        (next.withSurplus (surplus.load (.caller number) extra),
          events.map (Event.withPeerBlocks extra)) := by
  by_cases free : engine.lifecycleHolder = none
  · simp only [takeLifecycle, withSurplus_lifecycleHolder, free, if_true, Option.map_some,
      withSurplus_setCaller outside]
    rfl
  · simp only [takeLifecycle, withSurplus_lifecycleHolder, free, if_false]
    rfl

theorem takeSlot_withSurplus {activity : Activity}
    (outside : surplus.inside number = none) :
    (engine.withSurplus surplus).takeSlot number (activity.withPeerBlocks extra) =
      (engine.takeSlot number activity).map fun (next, events) =>
        (next.withSurplus (surplus.load (.caller number) extra),
          events.map (Event.withPeerBlocks extra)) := by
  by_cases free : engine.slotHolder = none
  · simp only [takeSlot, withSurplus_slotHolder, free, if_true, Option.map_some,
      withSurplus_setCaller outside]
    rfl
  · simp only [takeSlot, withSurplus_slotHolder, free, if_false]
    rfl

theorem applyUpdate_withSurplus {reason : Interruption} {announcement : Announcement}
    (extra : Nat) (outside : surplus.inside number = none) :
    (engine.withSurplus surplus).applyUpdate number reason announcement =
      let (next, events) := engine.applyUpdate number reason announcement
      (next.withSurplus (surplus.load (.caller number) extra),
        events.map (Event.withPeerBlocks extra)) := by
  simp only [applyUpdate, withSurplus_tracker]
  cases engine.tracker.update announcement with
  | mk verdict tracker =>
      cases verdict with
      | accepted =>
          simp only [withSurplus_setCaller outside]
          cases reason <;> rfl
      | zeroDifficulty | outOfOrder last =>
          simp only [finish, withSurplus_setCaller outside]
          cases reason <;> rfl

/-- A caller whose call is not hidden makes the same step with a surplus. -/
theorem stepCaller_withSurplus (outside : surplus.inside number = none) :
    (engine.withSurplus surplus).stepCaller number circumstances =
      (engine.stepCaller number circumstances).map fun (next, events) =>
        (next.withSurplus
            (surplus.load (.caller number) (engine.extra surplus (.caller number))),
          events.map (Event.withPeerBlocks (engine.extra surplus (.caller number)))) := by
  have there := @withSurplus_callers engine surplus number outside
  cases standing : engine.callers number with
  | idle =>
      simp only [standing] at there
      simp only [stepCaller, standing, there, Activity.withPeerBlocks]
      rfl
  | startLocking context | stopLocking =>
      simp only [standing] at there
      simp only [stepCaller, standing, there, Activity.withPeerBlocks,
        ← takeLifecycle_withSurplus outside]
  | startClaiming context | stopClaiming | interruptClaiming reason notified
  | closeClaiming =>
      simp only [standing] at there
      simp only [stepCaller, standing, there, Activity.withPeerBlocks,
        ← takeSlot_withSurplus outside]
  | startReleasing result | leaving result =>
      simp only [standing] at there
      simp only [stepCaller, standing, there, Activity.withPeerBlocks, Option.map_some,
        withSurplus_setCaller outside, finish, extra, hasPeerBlocks, Activity.hasPeerBlocks]
      cases result <;> rfl
  | stopTaking | stopSending run | stopAccounting run | startFilling generation worker
  | closeLooking =>
      simp only [standing] at there
      simp only [stepCaller, standing, there, Activity.withPeerBlocks, Option.map_some,
        withSurplus_setCaller outside, withSurplus_send]
      rfl
  | interruptReleasing notified delivered =>
      simp only [standing] at there
      simp only [stepCaller, standing, there, Activity.withPeerBlocks, Option.map_some,
        withSurplus_setCaller outside, finish]
      cases notified <;> rfl
  | peerCounting announcement =>
      simp only [standing] at there
      simp only [stepCaller, standing, there, Activity.withPeerBlocks, Option.map_some,
        withSurplus_setCaller outside, withSurplus_tally, Tally.countPeerBlock_withPeerBlocks]
      rfl
  | startChecking context =>
      simp only [standing] at there
      simp only [stepCaller, standing, there, Activity.withPeerBlocks, withSurplus_agent,
        withSurplus_tracker]
      by_cases unrated : engine.agent.hashrate.perSecond = 0
      · simp only [unrated, if_true, Option.map_some, withSurplus_setCaller outside]
        rfl
      · simp only [unrated, if_false, Option.map_some, withSurplus_setCaller outside]
        rfl
  | startDeciding context =>
      simp only [standing] at there
      simp only [stepCaller, standing, there, Activity.withPeerBlocks, withSurplus_slot]
      split
      · simp only [Option.map_some, withSurplus_setCaller outside]
        rfl
      · simp only [Option.map_some, withSurplus_setCaller outside, withSurplus_spawn,
          withSurplus_length]
        rfl
  | stopReleasing run =>
      simp only [standing] at there
      cases run with
      | none | some run =>
          simp only [stepCaller, standing, there, Activity.withPeerBlocks, Option.map_some,
            withSurplus_setCaller outside]
          rfl
  | stopJoining run =>
      simp only [standing] at there
      simp only [stepCaller, standing, there, Activity.withPeerBlocks, withSurplus_receives]
      split
      · rfl
      · simp only [Option.map_some, withSurplus_setCaller outside]
        rfl
  | interruptSending reason notified =>
      simp only [standing] at there
      simp only [stepCaller, standing, there, Activity.withPeerBlocks, withSurplus_slot,
        withSurplus_receives]
      split
      · split
        · simp only [Option.map_some, withSurplus_setCaller outside, withSurplus_send]
          rfl
        · simp only [Option.map_some, withSurplus_setCaller outside]
          rfl
      · simp only [Option.map_some, withSurplus_setCaller outside]
        rfl
  | updating reason announcement =>
      simp only [standing] at there
      simp only [stepCaller, standing, there, Activity.withPeerBlocks, Option.map_some,
        applyUpdate_withSurplus (engine.extra surplus (.caller number)) outside]
  | exporting loaded =>
      simp only [standing] at there
      simp only [stepCaller, standing, there, Activity.withPeerBlocks, withSurplus_tally,
        Tally.loadNext_withPeerBlocks, Tally.ofCounters?_withPeerBlocks]
      cases Tally.ofCounters? (engine.tally.loadNext loaded) with
      | none =>
        simp only [Option.map_none, Option.map_some, withSurplus_setCaller outside, extra,
          hasPeerBlocks, standing]
        rfl
      | some tally =>
        simp only [Option.map_some, withSurplus_setCaller outside, finish, extra, hasPeerBlocks,
          standing]
        rfl
  | closeReleasing active =>
      simp only [standing] at there
      cases active with
      | true | false =>
          simp only [stepCaller, standing, there, Activity.withPeerBlocks, Option.map_some,
            withSurplus_setCaller outside, finish]
          rfl
  | startRefusing fault stage =>
      simp only [standing] at there
      by_cases finished : stage = .done
      · subst finished
        simp only [stepCaller, standing, there, Activity.withPeerBlocks,
          Reporting.withPeerBlocks, Option.map_some, withSurplus_setCaller outside]
        cases fault <;> rfl
      · have unfinished := Reporting.withPeerBlocks_ne_done finished
          (surplus.loaded (.caller number))
        simp only [stepCaller, standing, there, Activity.withPeerBlocks, Option.map_some,
          stepReporting_withSurplus, withSurplus_setCaller outside, extra, hasPeerBlocks,
          Activity.hasPeerBlocks]
  | retiring retirement =>
      simp only [standing] at there
      by_cases finished : retirement = .done
      · subst finished
        simp only [stepCaller, standing, there, Activity.withPeerBlocks, Option.map_some,
          withSurplus_setCaller outside, finish]
        rfl
      · simp only [stepCaller, standing, there, Activity.withPeerBlocks,
          stepRetirement_withSurplus]
        cases engine.stepRetirement (.caller number) circumstances retirement with
        | none => rfl
        | some given =>
            simp only [Option.map_some, withSurplus_setCaller outside]
            rfl
  | reporting stage =>
      simp only [standing] at there
      by_cases finished : stage = .done
      · subst finished
        simp only [stepCaller, standing, there, Activity.withPeerBlocks,
          Reporting.withPeerBlocks, Option.map_some, withSurplus_setCaller outside, finish]
        rfl
      · have unfinished := Reporting.withPeerBlocks_ne_done finished
          (surplus.loaded (.caller number))
        simp only [stepCaller, standing, there, Activity.withPeerBlocks, Option.map_some,
          stepReporting_withSurplus, withSurplus_setCaller outside, extra, hasPeerBlocks,
          Activity.hasPeerBlocks]

/-- A worker makes the same step with a surplus. -/
theorem stepWorker_withSurplus :
    (engine.withSurplus surplus).stepWorker number circumstances =
      (engine.stepWorker number circumstances).map fun (next, events) =>
        (next.withSurplus
            (surplus.load (.worker number) (engine.extra surplus (.worker number))),
          events.map (Event.withPeerBlocks (engine.extra surplus (.worker number)))) := by
  have there := @withSurplus_getElem? engine surplus number
  cases found : engine.workers[number]? with
  | none =>
      rw [found] at there
      simp only [stepWorker, there, found, Option.map_none]
  | some worker =>
      rw [found, Option.map_some] at there
      simp only [stepWorker, there, found, Worker.withPeerBlocks]
      cases standing : worker.position with
      | entering | reading | counting task | offering block | crediting block | dating block
      | leaving =>
          simp only [Position.withPeerBlocks, Option.map_some, withSurplus_moveWorker]
          rfl
      | drawing seen =>
          simp only [Position.withPeerBlocks, Option.map_some, drawDelay, withSurplus_agent,
            withSurplus_stream]
          split
          · simp only [withSurplus_moveWorker]
            rfl
          · simp only [withSurplus_moveWorker]
            rfl
      | waiting task confirmed wait =>
          by_cases finished : ∃ outcome, wait = .over outcome
          · obtain ⟨outcome, rfl⟩ := finished
            simp only [Position.withPeerBlocks, Option.map_some, withSurplus_moveWorker]
            cases outcome with
            | expired | interrupted reason | stopped => cases confirmed <;> rfl
          · have unfinished : ∀ outcome, wait ≠ .over outcome :=
              fun outcome same => finished ⟨outcome, same⟩
            simp only [Position.withPeerBlocks]
            cases wait.step worker.mailbox circumstances.delayOver with
            | none => rfl
            | some received =>
                simp only [Option.map_some, Option.some.injEq, Prod.mk.injEq]
                refine ⟨?_, rfl⟩
                symm
                apply withSurplus_changeWorker
                intro _
                rfl
      | confirming task =>
          simp only [Position.withPeerBlocks]
          by_cases empty : worker.mailbox.queue = []
          · simp only [empty, if_true, Option.map_some, withSurplus_moveWorker]
            rfl
          · simp only [empty, if_false, Option.map_some, withSurplus_moveWorker]
            rfl
      | minting task =>
          simp only [Position.withPeerBlocks, Option.map_some, mintBlock, withSurplus_moveWorker]
          rfl
      | broadcasting block =>
          simp only [Position.withPeerBlocks]
          cases circumstances.answer with
          | none => rfl
          | some answer =>
              cases answer with
              | accepted | rejected fault =>
                  simp only [Option.map_some, withSurplus_moveWorker]
                  rfl
      | failing stage =>
          by_cases finished : stage = .done
          · subst finished
            simp only [Position.withPeerBlocks, Reporting.withPeerBlocks, Option.map_some,
              withSurplus_moveWorker]
            rfl
          · have unfinished := Reporting.withPeerBlocks_ne_done finished
              (surplus.loaded (.worker number))
            simp only [Position.withPeerBlocks, Option.map_some, stepReporting_withSurplus,
              withSurplus_moveWorker, extra, hasPeerBlocks, found, standing,
              Position.hasPeerBlocks]
      | retiring retirement fault =>
          by_cases finished : retirement = .done
          · subst finished
            simp only [Position.withPeerBlocks, Option.map_some, withSurplus_moveWorker]
            rfl
          · simp only [Position.withPeerBlocks, stepRetirement_withSurplus]
            cases engine.stepRetirement (.worker number) circumstances retirement with
            | none => rfl
            | some given =>
                simp only [Option.map_some, withSurplus_moveWorker]
                rfl
      | dying stage =>
          by_cases finished : stage = .done
          · subst finished
            simp only [Position.withPeerBlocks, Reporting.withPeerBlocks, Option.map_some,
              withSurplus_moveWorker]
            rfl
          · have unfinished := Reporting.withPeerBlocks_ne_done finished
              (surplus.loaded (.worker number))
            simp only [Position.withPeerBlocks, Option.map_some, stepReporting_withSurplus,
              withSurplus_moveWorker, extra, hasPeerBlocks, found, standing,
              Position.hasPeerBlocks]
      | exited => rfl

theorem withSurplus_setCaller_keep {activity : Activity}
    (outside : surplus.inside number = none) :
    (engine.setCaller number activity).withSurplus surplus =
      (engine.withSurplus surplus).setCaller number
        (activity.withPeerBlocks (surplus.loaded (.caller number))) := by
  rw [← withSurplus_setCaller outside, Surplus.load_self]

theorem begin_withSurplus {call : Call} (outside : surplus.inside number = none) :
    (engine.withSurplus surplus).begin number call =
      (engine.begin number call).map (withSurplus surplus) := by
  have there := @withSurplus_callers engine surplus number outside
  cases standing : engine.callers number with
  | idle =>
      simp only [standing] at there
      simp only [begin, there, standing, Activity.withPeerBlocks, Option.map_some,
        withSurplus_setCaller_keep outside]
      cases call <;> rfl
  | _ =>
      simp only [standing] at there
      simp only [begin, there, standing, Activity.withPeerBlocks, Option.map_none]

theorem failSpawn_withSurplus {reason : String} (outside : surplus.inside number = none) :
    (engine.withSurplus surplus).failSpawn number reason =
      (engine.failSpawn number reason).map fun (next, events) =>
        (next.withSurplus surplus, events.map (Event.withPeerBlocks 0)) := by
  have there := @withSurplus_callers engine surplus number outside
  cases standing : engine.callers number with
  | startDeciding context =>
      simp only [standing] at there
      simp only [failSpawn, there, standing, Activity.withPeerBlocks, withSurplus_slot]
      split
      · simp only [Option.map_some, withSurplus_setCaller_keep outside]
        rfl
      · rfl
  | _ =>
      simp only [standing] at there
      simp only [failSpawn, there, standing, Activity.withPeerBlocks, Option.map_none]

/-- A move that nobody makes from inside a hidden call is made with a surplus as well. -/
theorem move?_withSurplus (seen : surplus.Sees move) :
    (engine.withSurplus surplus).move? move =
      (engine.move? move).map fun (next, events) =>
        (next.withSurplus (engine.carry surplus move),
          events.map (Event.withPeerBlocks (engine.shown surplus move))) := by
  cases move with
  | call number call =>
      simp only [move?, begin_withSurplus (seen number rfl), Option.map_map]
      rfl
  | step actor circumstances =>
      cases actor with
      | caller number => exact stepCaller_withSurplus (seen number rfl)
      | worker number => exact stepWorker_withSurplus
  | failSpawn number reason => exact failSpawn_withSurplus (seen number rfl)
  | setReportPath path => rfl

theorem hasPeerBlocks_withSurplus {actor : Actor}
    (outside : ∀ number, actor = .caller number → surplus.inside number = none) :
    (engine.withSurplus surplus).hasPeerBlocks actor = engine.hasPeerBlocks actor := by
  cases actor with
  | caller number =>
      simp only [hasPeerBlocks, withSurplus_callers (outside number rfl),
        Activity.hasPeerBlocks_withPeerBlocks]
  | worker number =>
      simp only [hasPeerBlocks, withSurplus_getElem?]
      cases engine.workers[number]? with
      | none => rfl
      | some worker => exact Position.hasPeerBlocks_withPeerBlocks worker.position _

theorem carry_withSurplus (seen : surplus.Sees move) :
    (engine.withSurplus surplus).carry surplus move = engine.carry surplus move := by
  cases move with
  | step actor circumstances =>
      have outside : ∀ number, actor = .caller number → surplus.inside number = none := by
        rintro number rfl
        exact seen number rfl
      simp only [carry, extra, hasPeerBlocks_withSurplus outside]
  | _ => rfl

@[simp]
theorem withSurplus_none : engine.withSurplus .none = engine := by
  obtain ⟨agent, stream, tracker, tally, path, slot, lifecycleHolder, slotHolder, workers,
    callers⟩ := engine
  simp only [withSurplus, Surplus.none, Worker.withPeerBlocks, Tally.withPeerBlocks_zero,
    Position.withPeerBlocks_zero, Activity.withPeerBlocks_zero, Option.getD_none, mk.injEq,
    true_and, and_true]
  apply List.ext_getElem?
  intro number
  simp

end Engine

end MiningAgent
