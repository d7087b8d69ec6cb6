import MiningAgent.Proofs.Run.Tending

/-!
# One worker, and runs that follow each other

At most one worker is alive, the slot is occupied exactly while one is, and the results of
starts and stops tell of runs that follow each other.
-/

namespace MiningAgent

/-- Whether an agent mines after a start or a stop with some result, if that result can
come from an agent that does or does not mine. -/
def Result.next? (mining : Bool) : Result → Option Bool
  | .started => if mining then none else some true
  | .alreadyActive => if mining then some true else none
  | .refused _ => some mining
  | .stopped => if mining then some false else none
  | .notActive => if mining then none else some false
  | _ => none

/-- The results of starts and stops in the order in which they give back the lifecycle
lock: a stop follows every start, and a start or a stop without effect finds the agent as
the last one left it. -/
inductive Alternates : Bool → List Result → Prop
  | nil {mining : Bool} : Alternates mining []
  | started {rest : List Result} : Alternates true rest → Alternates false (.started :: rest)
  | alreadyActive {rest : List Result} :
      Alternates true rest → Alternates true (.alreadyActive :: rest)
  | refused {mining : Bool} {fault : Fault} {rest : List Result} :
      Alternates mining rest → Alternates mining (.refused fault :: rest)
  | stopped {rest : List Result} : Alternates false rest → Alternates true (.stopped :: rest)
  | notActive {rest : List Result} :
      Alternates false rest → Alternates false (.notActive :: rest)

theorem alternates_of_foldlM {mining later : Bool} {results : List Result}
    (folded : results.foldlM Result.next? mining = some later) :
    Alternates mining results := by
  induction results generalizing mining with
  | nil => exact .nil
  | cons result rest inductionHypothesis =>
      obtain ⟨after, first, second⟩ := Option.bind_eq_some_iff.mp folded
      have alternates := inductionHypothesis second
      cases result with
      | started =>
          cases mining with
          | false =>
              cases first
              exact .started alternates
          | true => cases first
      | alreadyActive =>
          cases mining with
          | false => cases first
          | true =>
              cases first
              exact .alreadyActive alternates
      | refused fault =>
          cases first
          exact .refused alternates
      | stopped =>
          cases mining with
          | false => cases first
          | true =>
              cases first
              exact .stopped alternates
      | notActive =>
          cases mining with
          | false =>
              cases first
              exact .notActive alternates
          | true => cases first
      | _ => cases first

/-- Whether the agent counts as mining until the holder of the lifecycle lock gives it
back, where the slot says otherwise or may change. -/
def Activity.committed : Activity → Option Bool
  | .startReleasing .started => some false
  | .leaving .started => some false
  | .stopReleasing (some _) => some true
  | .stopSending _ => some true
  | .stopJoining _ => some true
  | .stopAccounting _ => some true
  | .leaving .stopped => some true
  | _ => none

theorem Activity.committed_eq_none {activity : Activity}
    (free : activity.holdsLifecycle = false) : activity.committed = none := by
  unfold Activity.committed
  split
  all_goals first | rfl | cases free

namespace Engine

/-- The result with which a start or a stop gives back the lifecycle lock, if the moment
is that step. -/
def Moment.outcome? (moment : Moment) : Option Result :=
  match moment.activity? with
  | some (.leaving result) => some result
  | _ => none

/-- Whether the agent mines, as far as the calls that have given back the lifecycle lock
can tell. -/
def mines (engine : Engine) : Bool := (engine.held Activity.committed).getD engine.isMining

/-- Whether a worker has been spawned and has not exited. -/
def Lives (engine : Engine) (number : Nat) : Prop :=
  ∃ worker, engine.workers[number]? = some worker ∧ worker.position ≠ .exited

variable {engine next : Engine} {move : Move} {number : Nat} {circumstances : Circumstances}
  {events : List Event}

theorem Sound.inCharge_of_joined (sound : engine.Sound) (joined : engine.Joined number) :
    engine.inCharge = some number := by
  obtain ⟨caller, run, standing, target⟩ := joined
  rw [inCharge, sound.hand_eq standing rfl, ← target]
  rfl

theorem Tended.inCharge_of_lives (tended : engine.Tended) (lives : engine.Lives number) :
    engine.inCharge = some number := by
  obtain ⟨worker, found, present⟩ := lives
  rcases tended.attended number worker found with unstopped | joined | ⟨exited, _⟩
  · exact tended.sound.governed number worker found
      (Position.attached_of_working unstopped.working)
  · exact tended.sound.inCharge_of_joined joined
  · exact absurd exited present

theorem Tended.single (tended : engine.Tended) {first second : Nat}
    (lives : engine.Lives first) (other : engine.Lives second) : first = second := by
  have charge := tended.inCharge_of_lives lives
  rw [tended.inCharge_of_lives other] at charge
  exact (Option.some.inj charge).symm

/-- While a worker makes a step every other one has exited. -/
theorem Tended.others_exited (tended : engine.Tended)
    (taken : engine.stepWorker number circumstances = some (next, events)) {other : Nat}
    (different : other ≠ number) {worker : Worker}
    (found : engine.workers[other]? = some worker) : worker.position = .exited := by
  obtain ⟨stepping, present⟩ := exists_of_stepWorker taken
  obtain ⟨_, advance, _⟩ := stepWorker_cases taken present
  by_contra alive
  have lives : engine.Lives number := ⟨stepping, present, fun gone => advance.not_exited gone⟩
  exact different (tended.single ⟨worker, found, alive⟩ lives)

theorem Tended.others_exited_after (tended : engine.Tended)
    (taken : engine.stepWorker number circumstances = some (next, events)) {other : Nat}
    (different : other ≠ number) {later : Worker}
    (there : next.workers[other]? = some later) : later.position = .exited := by
  have made : engine.move? (.step (.worker number) circumstances) = some (next, events) := taken
  cases found : engine.workers[other]? with
  | none =>
      obtain ⟨_, _, _, _, own, _⟩ := move?_newcomer made found there
      cases own
  | some worker =>
      exact move?_exited made found there (tended.others_exited taken different found)

/-- While no run is in a start's or a stop's hands, the run in the slot is that of the
worker that is alive. -/
theorem Tended.active_iff_lives (tended : engine.Tended)
    (free : ∀ caller, (engine.callers caller).inHand = none) :
    engine.slot.active.map Run.worker = some number ↔ engine.Lives number := by
  have empty : engine.hand = none := by
    cases held : engine.hand with
    | none => rfl
    | some worker =>
        obtain ⟨caller, given⟩ := hand_caller held
        rw [free caller] at given
        cases given
  have charge : engine.inCharge = engine.slot.active.map Run.worker := by
    rw [inCharge, empty]
    rfl
  rw [← charge]
  constructor
  · intro charged
    have inside := tended.sound.present number charged
    have found : engine.workers[number]? = some engine.workers[number] :=
      List.getElem?_eq_getElem inside
    refine ⟨_, found, ?_⟩
    rcases tended.attended number _ found with unstopped | joined | ⟨_, uncharged⟩
    · intro exited
      have working := unstopped.working
      rw [exited] at working
      cases working
    · obtain ⟨caller, run, standing, _⟩ := joined
      have held := free caller
      rw [standing] at held
      cases held
    · exact absurd charged uncharged
  · exact tended.inCharge_of_lives

theorem Tended.isMining_iff_lives (tended : engine.Tended)
    (free : ∀ caller, (engine.callers caller).inHand = none) :
    engine.isMining = true ↔ ∃ number, engine.Lives number := by
  constructor
  · intro mining
    obtain ⟨run, active⟩ := Option.isSome_iff_exists.mp mining
    have occupied : engine.slot.active.map Run.worker = some run.worker := by simp [active]
    exact ⟨run.worker, (tended.active_iff_lives free).mp occupied⟩
  · rintro ⟨number, lives⟩
    have occupied := (tended.active_iff_lives free).mpr lives
    obtain ⟨run, active, _⟩ := Option.map_eq_some_iff.mp occupied
    simp [isMining, active]

/-- Giving back the lifecycle lock commits the result of a start or a stop. -/
theorem Tended.leaving_commits {result : Result} (tended : engine.Tended) {caller : Nat}
    (standing : engine.callers caller = .leaving result) :
    Result.next? engine.mines result = some engine.isMining := by
  have proper := tended.sound.proper caller
  have vacant := tended.sound.vacant caller
  have filled := tended.filled caller
  rw [mines, tended.sound.locked.held_eq standing rfl]
  rw [standing] at proper vacant filled
  cases result with
  | started =>
      have active := filled rfl
      simp [Activity.committed, Result.next?, isMining, Option.isSome_iff_ne_none.mpr active]
  | alreadyActive =>
      have active := filled rfl
      simp [Activity.committed, Result.next?, isMining, Option.isSome_iff_ne_none.mpr active]
  | refused fault => rfl
  | stopped =>
      have empty := vacant rfl
      simp [Activity.committed, Result.next?, isMining, empty]
  | notActive =>
      have empty := vacant rfl
      simp [Activity.committed, Result.next?, isMining, empty]
  | _ => cases proper

/-- Every other step of a caller leaves open what the calls before it have left open. -/
theorem Tended.stepCaller_mines (tended : engine.Tended) {caller : Nat}
    (taken : engine.stepCaller caller circumstances = some (next, events))
    (staying : ∀ result, engine.callers caller ≠ .leaving result) :
    next.mines = engine.mines := by
  have lockedLater := tended.sound.locked.stepCaller taken
  have kept := tended.sound.locked.held_kept (fun _ free => Activity.committed_eq_none free)
    taken
  cases stepCaller_cases taken with
  | startFilling standing =>
      have empty := tended.sound.vacant caller (by rw [standing]; rfl)
      rw [mines, mines, tended.sound.locked.held_eq standing rfl,
        lockedLater.held_eq (setCaller_self _ _ _) rfl]
      simp [Activity.committed, isMining, empty]
  | startReleasing standing =>
      rename_i result
      have proper := tended.sound.proper caller
      rw [standing] at proper
      rw [mines, mines, tended.sound.locked.held_eq standing rfl,
        lockedLater.held_eq (setCaller_self _ _ _) rfl]
      cases result <;> first | rfl | cases proper
  | stopTaking standing =>
      rw [mines, mines, tended.sound.locked.held_eq standing rfl,
        lockedLater.held_eq (setCaller_self _ _ _) rfl]
      simp only [isMining]
      cases engine.slot.active <;> rfl
  | leaving standing => exact absurd standing (staying _)
  | retiring standing given => exact (tended.sound.not_retiring standing).elim
  | _ =>
      rw [mines, mines, kept (by rw [setCaller_self, ‹engine.callers caller = _›]; rfl)]
      simp [isMining, spawn, releaseSlot]

/-- A move either commits a result or leaves open what was left open. -/
theorem Tended.mines_kept (tended : engine.Tended)
    (made : engine.move? move = some (next, events)) :
    match Moment.outcome? ⟨engine, move, events, next⟩ with
    | some result => Result.next? engine.mines result = some next.mines
    | none => next.mines = engine.mines := by
  cases move?_cases made with
  | call idle =>
      rename_i caller call
      have kept : call.entry.committed = (engine.callers caller).committed := by
        rw [idle]
        cases call <;> rfl
      change Option.getD _ _ = _
      rw [held_setCaller kept]
      rfl
  | failSpawn standing vacant =>
      rename_i caller reason context fault
      have kept : (Activity.startReleasing (.refused fault)).committed =
          (engine.callers caller).committed := by
        rw [standing]
        rfl
      change Option.getD _ _ = _
      rw [held_setCaller kept]
      rfl
  | setReportPath => rfl
  | worker taken =>
      obtain ⟨callers, holder, _⟩ := stepWorker_frame taken
      have slot := tended.stepWorker_slot taken
      change next.mines = engine.mines
      simp only [mines, held, isMining, callers, holder, slot]
  | caller taken =>
      rename_i caller circumstances
      by_cases leaving : ∃ result, engine.callers caller = .leaving result
      · obtain ⟨result, standing⟩ := leaving
        have commits := tended.leaving_commits standing
        simp only [stepCaller, standing] at taken
        cases taken
        simp only [Moment.outcome?, Moment.activity?, standing]
        exact commits
      · have staying : ∀ result, engine.callers caller ≠ .leaving result :=
          fun result standing => leaving ⟨result, standing⟩
        have kept := tended.stepCaller_mines taken staying
        simp only [Moment.outcome?, Moment.activity?]
        split
        · rename_i result outcome
          split at outcome
          · rename_i standing
            exact absurd (Option.some.inj standing) (staying _)
          · cases outcome
        · exact kept

theorem outcomes_fold {agent : Agent} {stream : Generator} {tally : Tally}
    {path : Option String} {history : History}
    (reached : (created agent stream .initial tally path).Reaches history engine) :
    (history.filterMap Moment.outcome?).foldlM Result.next? false = some engine.mines := by
  induction reached with
  | refl => rfl
  | @move history engine next move events reached made inductionHypothesis =>
      have kept := reached.tended.mines_kept made
      rw [List.filterMap_append, List.foldlM_append, inductionHypothesis]
      cases outcome : Moment.outcome? ⟨engine, move, events, next⟩ with
      | none =>
          rw [outcome] at kept
          simp [outcome, kept]
      | some result =>
          rw [outcome] at kept
          simp [outcome, kept]

/-- However callers and workers take turns, at most one worker is alive.  The slot is
occupied exactly while one is, except from a start's spawn until it fills the slot and from
a stop's taking of the run until it has joined the worker.  No worker ever fails, and the
results of starts and stops alternate. -/
theorem single_worker_alternating_runs {agent : Agent} {stream : Generator} {tally : Tally}
    {path : Option String} {history : History} {engine : Engine}
    (reached : (created agent stream .initial tally path).Reaches history engine) :
    (∀ first second, engine.Lives first → engine.Lives second → first = second) ∧
      ((∀ caller, (engine.callers caller).inHand = none) →
        (engine.isMining = true ↔ ∃ number, engine.Lives number)) ∧
      (∀ (number : Nat) worker, engine.workers[number]? = some worker →
        (∀ retirement fault, worker.position ≠ .retiring retirement fault) ∧
          ∀ reporting, worker.position ≠ .dying reporting) ∧
      Alternates false (history.filterMap Moment.outcome?) := by
  have tended := reached.tended
  refine ⟨?_, tended.isMining_iff_lives, ?_, alternates_of_foldlM (outcomes_fold reached)⟩
  · intro first second lives other
    exact tended.single lives other
  · intro number worker found
    have faultless := tended.faultless number worker found
    constructor
    · intro retirement fault standing
      rw [standing] at faultless
      cases faultless
    · intro reporting standing
      rw [standing] at faultless
      cases faultless

/-- Two callers start the agent while a third and a fourth stop it. -/
def crowdedRun : List Move :=
  .call 0 (.start (.ofWallet "")) :: .call 1 (.start (.ofWallet "")) :: .call 2 .stop ::
    .call 3 .stop :: steps (.caller 0) 7 ++ steps (.caller 1) 6 ++ steps (.worker 0) 2 ++
    steps (.caller 2) 5 ++ steps (.worker 0) 5 ++ steps (.caller 2) 3 ++ steps (.caller 3) 5

theorem alternating_crowdedRun :
    (small.record crowdedRun).1.filterMap Moment.outcome? =
        [.started, .alreadyActive, .stopped, .notActive] ∧
      Alternates false ((small.record crowdedRun).1.filterMap Moment.outcome?) :=
  ⟨by decide, (single_worker_alternating_runs (reaches_record crowdedRun)).2.2.2⟩

end Engine

end MiningAgent
