import MiningAgent.Proofs.Run.Faltering
import MiningAgent.Proofs.Run.Silence

/-!
# Records

What every step writes into the counters, and what it takes from the stream and hands to the
broadcaster.  It depends on nothing but the place of the actor that makes the step.
-/

namespace MiningAgent

def Reporting.record (tally : Tally) : Reporting → Tally
  | .counting _ => tally.countError
  | _ => tally

def Retirement.record (now : Instant) (tally : Tally) : Retirement → Tally
  | .accounting run => tally.addMiningTime (run.started.elapsed now)
  | _ => tally

/-- The counters after a worker's step from this position. -/
def Position.record (now : Instant) (tally : Tally) : Position → Tally
  | .counting _ => tally.countIteration
  | .crediting _ => tally.countBlock
  | .dating block => tally.dateBlock block.timestamp
  | .failing reporting => reporting.record tally
  | .dying reporting => reporting.record tally
  | .retiring retirement _ => retirement.record now tally
  | _ => tally

/-- The counters after a caller's step from this activity. -/
def Activity.record (now : Instant) (tally : Tally) : Activity → Tally
  | .startRefusing _ stage => stage.record tally
  | .stopAccounting run => tally.addMiningTime (run.started.elapsed now)
  | .peerCounting _ => tally.countPeerBlock
  | .retiring stage => stage.record now tally
  | .reporting stage => stage.record tally
  | _ => tally

namespace Engine

/-- The counters after a step of an actor. -/
def record? (engine : Engine) (now : Instant) : Actor → Option Tally
  | .caller number => some ((engine.callers number).record now engine.tally)
  | .worker number =>
      (engine.workers[number]?).map fun worker => worker.position.record now engine.tally

/-- The counters after a moment. -/
def Moment.recorded (moment : Moment) : Tally :=
  match moment.move with
  | .step actor circumstances =>
      (moment.before.record? circumstances.now actor).getD moment.before.tally
  | _ => moment.before.tally

variable {engine next : Engine} {number : Nat} {circumstances : Circumstances}
  {events : List Event} {moment : Moment}

theorem stepReporting_tally (engine : Engine) (circumstances : Circumstances)
    (reporting : Reporting) :
    (engine.stepReporting circumstances reporting).2.1.tally =
      reporting.record engine.tally := by
  cases reporting with
  | loading path loaded | writing path tally =>
      simp only [stepReporting]
      split <;> rfl
  | _ => rfl

theorem stepRetirement_tally {actor : Actor} {retirement later : Retirement}
    {changed : Engine}
    (given : engine.stepRetirement actor circumstances retirement = some (later, changed)) :
    changed.tally = retirement.record circumstances.now engine.tally := by
  cases stepRetirement_cases given with
  | _ => rfl

theorem stepCaller_tally
    (taken : engine.stepCaller number circumstances = some (next, events)) :
    next.tally = (engine.callers number).record circumstances.now engine.tally := by
  cases stepCaller_cases taken with
  | startRefusing standing unfinished | reporting standing unfinished =>
      rw [standing, setCaller_tally]
      exact stepReporting_tally _ _ _
  | retiring standing given =>
      rw [standing, setCaller_tally]
      exact stepRetirement_tally given
  | stopSending standing | interruptSending standing active present =>
      rw [standing, setCaller_tally, send_tally]
      rfl
  | _ =>
      rw [‹engine.callers number = _›]
      rfl

/-- What a worker's step from some position leaves in the counters and in the stream, and what
it hands over. -/
structure Leaves (engine : Engine) (position : Position) (context : Context)
    (circumstances : Circumstances) (next : Engine) (events : List Event) : Prop where
  tally : next.tally = position.record circumstances.now engine.tally
  stream : (∀ seen, position ≠ .drawing seen) → (∀ task, position ≠ .minting task) →
    next.stream = engine.stream
  offers : ∀ handed block, .offered handed block ∈ events →
    handed = context ∧ position = .offering block

theorem stepWorker_leaves {worker : Worker}
    (taken : engine.stepWorker number circumstances = some (next, events))
    (found : engine.workers[number]? = some worker) :
    engine.Leaves worker.position worker.context circumstances next events := by
  simp only [stepWorker, found] at taken
  cases standing : worker.position with
  | drawing seen =>
      simp only [standing, drawDelay] at taken
      split at taken
      · cases taken
        exact ⟨rfl, fun undrawn _ => absurd rfl (undrawn seen), by simp⟩
      · cases taken
        exact ⟨rfl, fun _ _ => rfl, by simp⟩
  | minting task =>
      simp only [standing, mintBlock] at taken
      cases taken
      exact ⟨rfl, fun _ unminted => absurd rfl (unminted task), by simp⟩
  | offering block =>
      simp only [standing] at taken
      cases taken
      refine ⟨rfl, fun _ _ => rfl, ?_⟩
      intro handed other member
      cases List.mem_singleton.mp member
      exact ⟨rfl, rfl⟩
  | waiting task confirmed wait =>
      cases wait with
      | listening | timedOut | draining last =>
          simp only [standing] at taken
          split at taken
          · cases taken
            exact ⟨rfl, fun _ _ => rfl, by simp⟩
          · cases taken
      | _ =>
          simp only [standing] at taken
          cases taken
          exact ⟨rfl, fun _ _ => rfl, by simp⟩
  | confirming task =>
      simp only [standing] at taken
      split at taken
      · cases taken
        exact ⟨rfl, fun _ _ => rfl, by simp⟩
      · cases taken
        exact ⟨rfl, fun _ _ => rfl, by simp⟩
  | broadcasting block =>
      simp only [standing] at taken
      split at taken
      · cases taken
      · cases taken
        exact ⟨rfl, fun _ _ => rfl, by simp⟩
      · cases taken
        exact ⟨rfl, fun _ _ => rfl, by simp⟩
  | failing reporting | dying reporting =>
      by_cases finished : reporting = .done
      · subst finished
        simp only [standing] at taken
        cases taken
        exact ⟨rfl, fun _ _ => rfl, by simp⟩
      · simp only [standing] at taken
        cases taken
        refine ⟨?_, ?_, ?_⟩
        · rw [moveWorker_eq, changeWorker_tally]
          exact stepReporting_tally _ _ _
        · intro _ _
          rw [moveWorker_eq, changeWorker_stream, stepReporting_stream]
        · intro handed block member
          cases stepReporting_silent engine circumstances reporting _ member
  | retiring retirement fault =>
      cases retirement with
      | done =>
          simp only [standing] at taken
          cases taken
          exact ⟨rfl, fun _ _ => rfl, by simp⟩
      | locking generation | claiming generation | accounting run | unlocking =>
          simp only [standing] at taken
          split at taken
          · rename_i later changed given
            cases taken
            exact ⟨stepRetirement_tally given, fun _ _ => (stepRetirement_quiet given).1, by simp⟩
          · cases taken
  | exited =>
      simp only [standing] at taken
      cases taken
  | _ =>
      simp only [standing] at taken
      cases taken
      exact ⟨rfl, fun _ _ => rfl, by simp⟩

theorem move?_tally {move : Move} (made : engine.move? move = some (next, events)) :
    next.tally = Moment.recorded ⟨engine, move, events, next⟩ := by
  cases move?_cases made with
  | call idle | failSpawn standing vacant | setReportPath => rfl
  | caller taken => exact stepCaller_tally taken
  | worker taken =>
      obtain ⟨worker, found⟩ := exists_of_stepWorker taken
      rw [(stepWorker_leaves taken found).tally]
      simp [Moment.recorded, record?, found]

/-- The counters after a moment are what its actor records, also if a draw fails. -/
theorem Moment.Happens.tally (happens : moment.Happens) :
    moment.after.tally = moment.recorded := by
  cases happens with
  | made made => exact move?_tally made
  | failed own failed silent =>
      obtain ⟨worker, seen, found, standing, after⟩ := failDraw_cases failed
      simp [Moment.recorded, record?, own, found, standing, Position.record, after]

end Engine

end MiningAgent
