import MiningAgent.Proofs.Run.Charge

/-!
# Silence after a stop

Once a stop gives back the lifecycle lock nobody is in charge, and nobody will be before
another start takes that lock.  A worker that is not in charge neither draws nor announces.
-/

namespace MiningAgent

/-- The counters that only mining moves are the same. -/
structure Tally.SameWork (tally later : Tally) : Prop where
  blocksFound : later.blocksFound = tally.blocksFound
  iterations : later.iterations = tally.iterations
  lastBlockTime : later.lastBlockTime = tally.lastBlockTime

theorem Tally.SameWork.refl (tally : Tally) : tally.SameWork tally := ⟨rfl, rfl, rfl⟩

/-- A draw from the stream, a call of the broadcaster, or its answer. -/
def Event.isWork : Event → Bool
  | .drew _ => true
  | .offered _ _ => true
  | .answered _ => true
  | _ => false

/-- Whether a start is under way and may still spawn a worker. -/
def Activity.launches : Activity → Bool
  | .startChecking _ => true
  | .startClaiming _ => true
  | .startDeciding _ => true
  | _ => false

theorem Activity.holdsLifecycle_of_launches {activity : Activity}
    (launches : activity.launches = true) : activity.holdsLifecycle = true := by
  unfold Activity.launches at launches
  split at launches
  all_goals first | rfl | cases launches

namespace Engine

namespace Moment

/-- Nobody draws, announces or counts a discovery. -/
structure Quiet (moment : Moment) : Prop where
  stream : moment.after.stream = moment.before.stream
  counters : moment.before.tally.SameWork moment.after.tally
  silent : ∀ event ∈ moment.events, event.isWork = false

/-- Whether a start takes the lifecycle lock. -/
def beginsStart (moment : Moment) : Bool :=
  match moment.activity? with
  | some (.startLocking _) => true
  | _ => false

/-- A stop gives back the lifecycle lock, or an agent that is not mining is closed.  Who
closes an agent owns it, so nobody else has a call then. -/
inductive EndsMining (moment : Moment) : Prop
  | stopped (leaving : moment.activity? = some (.leaving .stopped))
  | notActive (leaving : moment.activity? = some (.leaving .notActive))
  | closed {number : Nat} {circumstances : Circumstances}
      (own : moment.move = .step (.caller number) circumstances)
      (closing : moment.before.callers number = .closeReleasing false)
      (alone : ∀ other, other ≠ number → moment.before.callers other = .idle)

end Moment

variable {engine next : Engine} {move : Move} {number : Nat} {circumstances : Circumstances}
  {events : List Event}

theorem stepReporting_sameWork (engine : Engine) (circumstances : Circumstances)
    (reporting : Reporting) :
    engine.tally.SameWork (engine.stepReporting circumstances reporting).2.1.tally := by
  cases reporting with
  | counting fault => exact ⟨rfl, rfl, rfl⟩
  | judging fault => exact .refl _
  | loading path loaded =>
      simp only [stepReporting]
      split <;> exact .refl _
  | writing path tally =>
      simp only [stepReporting]
      split <;> exact .refl _
  | done => exact .refl _

theorem stepReporting_silent (engine : Engine) (circumstances : Circumstances)
    (reporting : Reporting) :
    ∀ event ∈ (engine.stepReporting circumstances reporting).2.2, event.isWork = false := by
  cases reporting with
  | counting fault => simp [stepReporting]
  | judging fault => simp [stepReporting, Event.isWork]
  | loading path loaded =>
      simp only [stepReporting]
      split <;> simp
  | writing path tally =>
      simp only [stepReporting]
      split <;> simp [Event.isWork]
  | done => simp [stepReporting]

theorem stepRetirement_quiet {actor : Actor} {retirement later : Retirement}
    {changed : Engine}
    (given : engine.stepRetirement actor circumstances retirement = some (later, changed)) :
    changed.stream = engine.stream ∧ engine.tally.SameWork changed.tally := by
  cases stepRetirement_cases given with
  | accounting => exact ⟨rfl, rfl, rfl, rfl⟩
  | _ => exact ⟨rfl, .refl _⟩

/-- No step of a caller is part of mining. -/
theorem stepCaller_quiet
    (taken : engine.stepCaller number circumstances = some (next, events)) :
    Moment.Quiet ⟨engine, .step (.caller number) circumstances, events, next⟩ := by
  cases stepCaller_cases taken with
  | startRefusing standing unfinished | reporting standing unfinished =>
      exact ⟨by simp, stepReporting_sameWork _ _ _, stepReporting_silent _ _ _⟩
  | retiring standing given =>
      obtain ⟨stream, counters⟩ := stepRetirement_quiet given
      exact ⟨stream, counters, by simp⟩
  | stopSending standing | interruptSending standing active present =>
      refine ⟨by simp, ?_, by simp [Event.isWork]⟩
      simpa using .refl _
  | updating_accepted standing accepted entries =>
      refine ⟨rfl, .refl _, ?_⟩
      intro event member
      obtain ⟨entry, rfl⟩ := entries event member
      rfl
  | updating_refused standing refused entries =>
      refine ⟨rfl, .refl _, ?_⟩
      intro event member
      rcases List.mem_append.mp member with early | last
      · obtain ⟨entry, rfl⟩ := entries event early
        rfl
      · cases List.mem_singleton.mp last
        rfl
  | _ => exact ⟨rfl, ⟨rfl, rfl, rfl⟩, by simp [Event.isWork]⟩

/-- A worker that has given up its run is quiet. -/
theorem stepWorker_quiet {worker : Worker}
    (taken : engine.stepWorker number circumstances = some (next, events))
    (found : engine.workers[number]? = some worker)
    (detached : worker.position.attached = false) :
    Moment.Quiet ⟨engine, .step (.worker number) circumstances, events, next⟩ := by
  simp only [stepWorker, found] at taken
  cases standing : worker.position with
  | retiring retirement fault =>
      by_cases finished : retirement = .done
      · subst finished
        simp only [standing] at taken
        cases taken
        exact ⟨rfl, .refl _, by simp⟩
      · simp only [standing] at taken
        split at taken
        · cases taken
          obtain ⟨stream, counters⟩ := stepRetirement_quiet ‹_›
          exact ⟨stream, counters, by simp⟩
        · cases taken
  | dying reporting =>
      by_cases finished : reporting = .done
      · subst finished
        simp only [standing] at taken
        cases taken
        exact ⟨rfl, .refl _, by simp⟩
      · simp only [standing] at taken
        cases taken
        refine ⟨by simp, ?_, stepReporting_silent _ _ _⟩
        simpa using stepReporting_sameWork engine circumstances reporting
  | leaving =>
      simp only [standing] at taken
      cases taken
      exact ⟨rfl, .refl _, by simp [Event.isWork]⟩
  | exited => simp [standing] at taken
  | _ =>
      rw [standing] at detached
      cases detached

/-- Nobody is in charge and no start is under way. -/
structure Vacated (engine : Engine) : Prop where
  sound : engine.Sound
  free : engine.inCharge = none
  unlaunched : ∀ number, (engine.callers number).launches = false

theorem Vacated.quiet (vacated : engine.Vacated)
    (made : engine.move? move = some (next, events)) :
    Moment.Quiet ⟨engine, move, events, next⟩ := by
  cases move?_cases made with
  | call idle | setReportPath => exact ⟨rfl, .refl _, by simp⟩
  | failSpawn standing vacant => exact ⟨rfl, .refl _, by simp [Event.isWork]⟩
  | caller taken => exact stepCaller_quiet taken
  | worker taken =>
      rename_i number circumstances
      obtain ⟨worker, present⟩ := exists_of_stepWorker taken
      refine stepWorker_quiet taken present ?_
      by_contra attached
      have charged := vacated.sound.governed number worker present
        (Bool.not_eq_false _ ▸ attached)
      rw [vacated.free] at charged
      cases charged

theorem Vacated.kept (vacated : engine.Vacated)
    (made : engine.move? move = some (next, events))
    (unstarted : Moment.beginsStart ⟨engine, move, events, next⟩ = false) :
    next.Vacated := by
  refine ⟨vacated.sound.kept made, ?_, ?_⟩
  · cases vacated.sound.handover made with
    | keep same settled => rw [same, vacated.free]
    | @spawn caller context launching free given grown =>
        have unlaunched := vacated.unlaunched caller
        rw [launching] at unlaunched
        cases unlaunched
    | drop held free settled detached => exact free
  · intro other
    have unlaunched := vacated.unlaunched other
    cases move?_cases made with
    | call idle =>
        rename_i call
        rw [setCaller_callers]
        split
        · cases call <;> rfl
        · exact unlaunched
    | failSpawn standing vacant =>
        rw [setCaller_callers]
        split
        · rfl
        · exact unlaunched
    | setReportPath => exact unlaunched
    | worker taken =>
        rw [(stepWorker_frame taken).1]
        exact unlaunched
    | caller taken =>
        rename_i number circumstances
        by_cases own : other = number
        · subst own
          cases stepCaller_cases taken with
          | startLocking standing free =>
              simp [Moment.beginsStart, Moment.activity?, standing] at unstarted
          | startChecking standing rated | startClaiming standing free =>
              rw [standing] at unlaunched
              cases unlaunched
          | _ =>
              rw [setCaller_self]
              rfl
        · rw [stepCaller_others taken own]
          exact unlaunched

theorem Sound.vacated_of_leaving {result : Result} (sound : engine.Sound)
    (standing : engine.callers number = .leaving result) (ends : result.endsStop = true) :
    engine.Vacated := by
  refine ⟨sound, ?_, ?_⟩
  · have empty : engine.slot.active = none := sound.vacant number (by rw [standing]; exact ends)
    rw [inCharge, sound.hand_eq standing rfl, empty]
    rfl
  · intro other
    by_contra launches
    have holds := Activity.holdsLifecycle_of_launches (Bool.not_eq_false _ ▸ launches)
    cases sound.locked.sole (by rw [standing]; rfl) holds
    rw [standing] at launches
    exact launches rfl

theorem Sound.vacated_of_closing (sound : engine.Sound)
    (closing : engine.callers number = .closeReleasing false)
    (alone : ∀ other, other ≠ number → engine.callers other = .idle) : engine.Vacated := by
  have calm : ∀ other, (engine.callers other).holdsLifecycle = false ∧
      (engine.callers other).launches = false := by
    intro other
    by_cases own : other = number
    · rw [own, closing]
      exact ⟨rfl, rfl⟩
    · rw [alone other own]
      exact ⟨rfl, rfl⟩
  refine ⟨sound, ?_, fun other => (calm other).2⟩
  have empty : engine.slot.active = none := sound.vacant number (by rw [closing]; rfl)
  have free : engine.hand = none := by
    cases held : engine.hand with
    | none => rfl
    | some worker =>
        obtain ⟨holder, given⟩ := hand_caller held
        rw [inHand_eq_none (calm holder).1] at given
        cases given
  rw [inCharge, free, empty]
  rfl

theorem Moment.EndsMining.vacated {moment : Moment} (ends : moment.EndsMining)
    (sound : moment.before.Sound) : moment.before.Vacated := by
  cases ends with
  | stopped leaving =>
      obtain ⟨number, _, _, standing⟩ := exists_of_activity? leaving
      exact sound.vacated_of_leaving standing rfl
  | notActive leaving =>
      obtain ⟨number, _, _, standing⟩ := exists_of_activity? leaving
      exact sound.vacated_of_leaving standing rfl
  | closed own closing alone => exact sound.vacated_of_closing closing alone

theorem Moment.EndsMining.beginsStart {moment : Moment} (ends : moment.EndsMining) :
    moment.beginsStart = false := by
  cases ends with
  | stopped leaving => simp [Moment.beginsStart, leaving]
  | notActive leaving => simp [Moment.beginsStart, leaving]
  | closed own closing alone => simp [Moment.beginsStart, Moment.activity?, own, closing]

/-- From the moment a stop or a close returns until a start takes the lifecycle lock, no
worker draws, calls the broadcaster or moves the counters of mining. -/
theorem quiet_until_next_start {agent : Agent} {stream : Generator} {tracker : Tracker}
    {tally : Tally} {path : Option String} {before during : History} {ending : Moment}
    {finish : Engine}
    (reached : (created agent stream tracker tally path).Reaches
      (before ++ ending :: during) finish)
    (ends : ending.EndsMining)
    (unstarted : ∀ moment ∈ during, moment.beginsStart = false) :
    ∀ moment ∈ during, moment.Quiet := by
  obtain ⟨first, made, second⟩ := reached.cut
  have sound := first.sound (sound_created agent stream tracker tally path)
  have vacated : ending.after.Vacated := (ends.vacated sound).kept made ends.beginsStart
  obtain ⟨_, along⟩ := second.keeps_along
    (fun holds made allowed => Vacated.kept holds made allowed) vacated unstarted
  intro moment member
  obtain ⟨here, step⟩ := along moment member
  exact here.quiet step

/-- One caller starts the agent, and another stops it while its worker waits. -/
def shortRun : List Move :=
  .call 0 (.start (.ofWallet "")) :: steps (.caller 0) 7 ++ steps (.worker 0) 4 ++
    .call 1 .stop :: steps (.caller 1) 5 ++ steps (.worker 0) 3 ++ steps (.caller 1) 2

def shortRunEnd : Moment := (small.record shortRun).2.momentOf (.step (.caller 1) calm)

def lateCalls : List Move :=
  .call 2 (.peerBlock ⟨3, 1⟩) :: steps (.caller 2) 5 ++ .call 0 .stop :: steps (.caller 0) 5

theorem quiet_after_shortRun :
    (shortRunEnd.after.record lateCalls).1.length = 12 ∧
      ∀ moment ∈ (shortRunEnd.after.record lateCalls).1, moment.Quiet := by
  have ended : (small.record shortRun).2.Reaches [shortRunEnd] shortRunEnd.after :=
    reaches_momentOf (by decide)
  have reached : small.Reaches ((small.record shortRun).1 ++ shortRunEnd ::
      (shortRunEnd.after.record lateCalls).1) (shortRunEnd.after.record lateCalls).2 :=
    (reaches_record shortRun).append (ended.append (reaches_record lateCalls))
  have ends : shortRunEnd.EndsMining := .stopped (by decide)
  have unstarted : ∀ moment ∈ (shortRunEnd.after.record lateCalls).1,
      moment.beginsStart = false := by decide
  exact ⟨by decide, quiet_until_next_start reached ends unstarted⟩

end Engine

end MiningAgent
