import MiningAgent.Proofs.Run.Balance
import MiningAgent.Proofs.Run.Lifecycle
import MiningAgent.Proofs.Run.Silence
import MiningAgent.Proofs.Run.LastSteps

/-!
# How iterations end

Every iteration that is counted ends in one of four ways: the broadcaster accepts or rejects
its block, an interrupt ends it, or a stop does.
-/

namespace MiningAgent

namespace Position

/-- The block that the broadcaster accepts at a worker's step. -/
def accepted? (position : Position) (circumstances : Circumstances) : Option Block :=
  match position, circumstances.answer with
  | .broadcasting block, some .accepted => some block
  | _, _ => none

/-- The fault for which the broadcaster rejects a block at a worker's step. -/
def rejected? (position : Position) (circumstances : Circumstances) : Option Fault :=
  match position, circumstances.answer with
  | .broadcasting _, some (.rejected fault) => some fault
  | _, _ => none

def accepts (position : Position) (circumstances : Circumstances) : Bool :=
  (position.accepted? circumstances).isSome

def rejects (position : Position) (circumstances : Circumstances) : Bool :=
  (position.rejected? circumstances).isSome

def isInterrupted : Position → Bool
  | .waiting _ _ (.over (.interrupted _)) => true
  | _ => false

/-- Whether a worker has taken an interrupt that is going to end its iteration. -/
def isDraining : Position → Bool
  | .waiting _ _ (.draining _) => true
  | .waiting _ _ (.over (.interrupted _)) => true
  | _ => false

def isStopped : Position → Bool
  | .waiting _ _ (.over .stopped) => true
  | _ => false

def isCrediting : Position → Bool
  | .crediting _ => true
  | _ => false

def isFaulting : Position → Bool
  | .failing (.counting _) => true
  | _ => false

/-- Whether a worker is in an iteration that has been counted and has not ended. -/
def isOngoing : Position → Bool
  | .waiting _ _ _ => true
  | .confirming _ => true
  | .minting _ => true
  | .offering _ => true
  | .broadcasting _ => true
  | _ => false

/-- Whether a worker has left its loop. -/
def isOut : Position → Bool
  | .leaving => true
  | .exited => true
  | _ => false

/-- Whether a worker is between two iterations, before the first or behind the last. -/
def isOutside : Position → Bool
  | .entering => true
  | .reading => true
  | .leaving => true
  | .exited => true
  | _ => false

variable {position : Position} {circumstances : Circumstances}

theorem of_isOutside (outside : position.isOutside = true) :
    position = .entering ∨ position = .reading ∨ position = .leaving ∨ position = .exited := by
  cases position with
  | entering | reading | leaving | exited => simp
  | _ => cases outside

theorem answer_of_accepts (accepts : position.accepts circumstances = true) :
    (∃ block, position = .broadcasting block) ∧ circumstances.answer = some .accepted := by
  unfold Position.accepts Position.accepted? at accepts
  split at accepts
  · exact ⟨⟨_, rfl⟩, ‹_›⟩
  · cases accepts

theorem answer_of_rejects (rejects : position.rejects circumstances = true) :
    (∃ block, position = .broadcasting block) ∧
      ∃ fault, circumstances.answer = some (.rejected fault) := by
  unfold Position.rejects Position.rejected? at rejects
  split at rejects
  · exact ⟨⟨_, rfl⟩, _, ‹_›⟩
  · cases rejects

end Position

/-- Whether a caller reports that its start is refused for the want of a hash rate. -/
def Activity.isRefusing : Activity → Bool
  | .startRefusing _ _ => true
  | _ => false

namespace Engine

/-- No worker is inside an iteration. -/
def Resting (engine : Engine) : Prop :=
  ∀ worker ∈ engine.workers, worker.position.isOutside = true

/-- The blocks that the broadcaster accepted, in order. -/
def accepted (history : History) : List Block :=
  history.filterMap fun moment => moment.work?.bind fun work => work.1.accepted? work.2

/-- The faults for which it rejected blocks, in order. -/
def rejected (history : History) : List Fault :=
  history.filterMap fun moment => moment.work?.bind fun work => work.1.rejected? work.2

/-- How many iterations an interrupt ended. -/
def interrupted (history : History) : Nat := count history fun position _ => position.isInterrupted

variable {start finish engine next : Engine} {history : History} {moment : Moment}
  {move : Move} {number caller : Nat} {circumstances : Circumstances} {events : List Event}

theorem turns_crediting :
    Turns Position.isCrediting Position.accepts (fun position _ => position.isCrediting) := by
  intro engine circumstances worker later advance _ _
  cases advance with
  | broadcasting standing accepted =>
      simp [standing, accepted, Position.accepts, Position.accepted?, Position.isCrediting]
  | broadcasting_rejected standing rejected =>
      simp [standing, rejected, Position.accepts, Position.accepted?, Position.isCrediting]
  | _ =>
      rw [‹worker.position = _›]
      rfl

/-- An error is counted first of all. -/
theorem isFaulting_stepReporting (engine : Engine) (circumstances : Circumstances)
    (reporting : Reporting) :
    (Position.failing (engine.stepReporting circumstances reporting).1).isFaulting = false := by
  cases reporting with
  | judging fault =>
      simp only [stepReporting]
      split <;> rfl
  | loading path loaded | writing path tally =>
      simp only [stepReporting]
      split <;> rfl
  | _ => rfl

theorem turns_faulting :
    Turns Position.isFaulting Position.rejects (fun position _ => position.isFaulting) := by
  intro engine circumstances worker later advance _ _
  cases advance with
  | broadcasting standing accepted =>
      simp [standing, accepted, Position.rejects, Position.rejected?, Position.isFaulting]
  | broadcasting_rejected standing rejected =>
      simp [standing, rejected, Position.rejects, Position.rejected?, Position.isFaulting]
  | @failing reporting standing unfinished =>
      rw [standing, isFaulting_stepReporting]
      cases reporting <;> rfl
  | _ =>
      rw [‹worker.position = _›]
      rfl

/-- The four ways in which an iteration ends. -/
def ends (position : Position) (circumstances : Circumstances) : Bool :=
  position.accepts circumstances || (position.rejects circumstances ||
    (position.isInterrupted || position.isStopped))

theorem turns_ongoing :
    Turns Position.isOngoing (fun position _ => position.isCounting) ends := by
  intro engine circumstances worker later advance _ _
  cases advance with
  | broadcasting standing accepted =>
      simp [standing, accepted, ends, Position.accepts, Position.accepted?, Position.isOngoing,
        Position.isCounting]
  | broadcasting_rejected standing rejected =>
      simp [standing, rejected, ends, Position.rejects, Position.rejected?, Position.isOngoing,
        Position.isCounting]
  | @taking task confirmed wait reason rest standing unfinished queued
  | @stopping task confirmed wait rest standing unfinished queued =>
      rw [standing]
      cases wait with
      | listening | timedOut | draining last => rfl
      | _ => exact absurd rfl (unfinished _)
  | losing standing patient empty disconnected =>
      rw [standing]
      rcases patient with rfl | rfl
      · rfl
      · rfl
  | _ =>
      rw [‹worker.position = _›]
      rfl

theorem turns_out : Turns Position.isOut (fun position _ => position.isStopped)
    (fun _ _ => false) := by
  intro engine circumstances worker later advance faultless _
  cases advance with
  | dying_done standing =>
      rw [standing] at faultless
      cases faultless
  | @taking task confirmed wait reason rest standing unfinished queued
  | @stopping task confirmed wait rest standing unfinished queued =>
      rw [standing]
      cases wait with
      | listening | timedOut | draining last => rfl
      | _ => exact absurd rfl (unfinished _)
  | losing standing patient empty disconnected =>
      rw [standing]
      rcases patient with rfl | rfl
      · rfl
      · rfl
  | _ =>
      rw [‹worker.position = _›]
      rfl

theorem record_blocksFound (position : Position) (now : Instant) (tally : Tally)
    (faultless : position.faultless = true) :
    (position.record now tally).blocksFound =
      tally.blocksFound + UInt64.ofNat position.isCrediting.toNat := by
  cases position with
  | crediting block => rfl
  | failing reporting => cases reporting <;> exact (UInt64.add_zero _).symm
  | retiring retirement fault | dying reporting => cases faultless
  | _ => exact (UInt64.add_zero _).symm

theorem record_errors (position : Position) (now : Instant) (tally : Tally)
    (faultless : position.faultless = true) :
    (position.record now tally).errors =
      tally.errors + UInt64.ofNat position.isFaulting.toNat := by
  cases position with
  | failing reporting =>
      cases reporting with
      | counting fault => rfl
      | _ => exact (UInt64.add_zero _).symm
  | retiring retirement fault | dying reporting => cases faultless
  | _ => exact (UInt64.add_zero _).symm

theorem record_iterations (position : Position) (now : Instant) (tally : Tally)
    (faultless : position.faultless = true) :
    (position.record now tally).iterations =
      tally.iterations + UInt64.ofNat position.isCounting.toNat := by
  cases position with
  | counting task => rfl
  | failing reporting => cases reporting <;> exact (UInt64.add_zero _).symm
  | retiring retirement fault | dying reporting => cases faultless
  | _ => exact (UInt64.add_zero _).symm

/-- There is a hash rate, and so no start is refused for the want of one. -/
structure Rated (engine : Engine) : Prop where
  hashrate : engine.agent.hashrate.perSecond ≠ 0
  unrefused : ∀ caller, (engine.callers caller).isRefusing = false

theorem Rated.kept (rated : engine.Rated) (made : engine.move? move = some (next, events)) :
    next.Rated := by
  refine ⟨by rw [move?_agent made]; exact rated.hashrate, ?_⟩
  intro other
  have unrefused := rated.unrefused other
  cases move?_cases made with
  | @call number call idle =>
      rw [setCaller_callers]
      split
      · cases call <;> rfl
      · exact unrefused
  | failSpawn standing vacant =>
      rw [setCaller_callers]
      split
      · rfl
      · exact unrefused
  | setReportPath => exact unrefused
  | worker taken =>
      rw [(stepWorker_frame taken).1]
      exact unrefused
  | @caller number circumstances next events taken =>
      by_cases own : other = number
      · subst own
        cases stepCaller_cases taken with
        | startChecking_unrated standing unrated cause => exact absurd unrated rated.hashrate
        | startRefusing standing unfinished =>
            rw [standing] at unrefused
            cases unrefused
        | _ =>
            rw [setCaller_self]
            rfl
      · rw [stepCaller_others taken own]
        exact unrefused

theorem Rated.stepCaller_errors (rated : engine.Rated) (sound : engine.Sound)
    (taken : engine.stepCaller caller circumstances = some (next, events)) :
    next.tally.errors = engine.tally.errors := by
  rw [stepCaller_tally taken]
  have unrefused := rated.unrefused caller
  have proper := sound.proper caller
  cases standing : engine.callers caller with
  | startRefusing fault reporting =>
      rw [standing] at unrefused
      cases unrefused
  | retiring retirement | reporting reporting =>
      rw [standing] at proper
      cases proper
  | _ => rfl

section Reached

variable {agent : Agent} {stream : Generator} {path : Option String}

theorem rated_created (rated : agent.hashrate.perSecond ≠ 0) :
    (created agent stream .initial .zero path).Rated := ⟨rated, fun _ => rfl⟩

theorem Reaches.tally_blocksFound
    (reached : (created agent stream .initial .zero path).Reaches history finish) :
    finish.tally.blocksFound =
      UInt64.ofNat (count history fun position _ => position.isCrediting) := by
  rw [reached.counter Tally.blocksFound (fun position _ => position.isCrediting)
    (tended_created agent stream .zero path)]
  · exact UInt64.zero_add _
  · intro position circumstances tally faultless
    exact record_blocksFound position circumstances.now tally faultless
  · intro _ _ _ _ _ _ _ taken
    exact (stepCaller_quiet taken).counters.blocksFound

theorem Reaches.tally_iterations
    (reached : (created agent stream .initial .zero path).Reaches history finish) :
    finish.tally.iterations =
      UInt64.ofNat (count history fun position _ => position.isCounting) := by
  rw [reached.counter Tally.iterations (fun position _ => position.isCounting)
    (tended_created agent stream .zero path)]
  · exact UInt64.zero_add _
  · intro position circumstances tally faultless
    exact record_iterations position circumstances.now tally faultless
  · intro _ _ _ _ _ _ _ taken
    exact (stepCaller_quiet taken).counters.iterations

theorem Reaches.tally_errors (rated : agent.hashrate.perSecond ≠ 0)
    (reached : (created agent stream .initial .zero path).Reaches history finish) :
    finish.tally.errors =
      UInt64.ofNat (count history fun position _ => position.isFaulting) := by
  rw [reached.counter Tally.errors (fun position _ => position.isFaulting)
    (tended_created agent stream .zero path)]
  · exact UInt64.zero_add _
  · intro position circumstances tally faultless
    exact record_errors position circumstances.now tally faultless
  · intro before middle next caller circumstances events reached taken
    have ratedHere := reached.keeps (fun kept made => Rated.kept kept made) (rated_created rated)
    exact ratedHere.stepCaller_errors reached.tended.sound taken

end Reached

theorem length_accepted (history : History) :
    (accepted history).length = count history Position.accepts := by
  rw [accepted, List.length_filterMap_eq_countP]
  apply List.countP_congr
  intro moment _
  cases work : moment.work? with
  | none => simp [Moment.works, work]
  | some shown => simp [Moment.works, work, Position.accepts]

theorem length_rejected (history : History) :
    (rejected history).length = count history Position.rejects := by
  rw [rejected, List.length_filterMap_eq_countP]
  apply List.countP_congr
  intro moment _
  cases work : moment.work? with
  | none => simp [Moment.works, work]
  | some shown => simp [Moment.works, work, Position.rejects]

theorem Resting.marked {mark : Position → Bool} (resting : engine.Resting)
    (entering : mark .entering = false) (reading : mark .reading = false)
    (leaving : mark .leaving = false) (exited : mark .exited = false) :
    engine.marked mark = 0 := by
  apply total_eq_zero
  intro number worker found
  have outside := resting worker (List.mem_of_getElem? found)
  rcases Position.of_isOutside outside with same | same | same | same
  · rw [same, entering]
    rfl
  · rw [same, reading]
    rfl
  · rw [same, leaving]
    rfl
  · rw [same, exited]
    rfl

theorem count_ends (history : History) :
    count history ends = (accepted history).length + (rejected history).length +
      interrupted history + count history fun position _ => position.isStopped := by
  unfold ends interrupted
  rw [count_or, count_or, count_or, length_accepted, length_rejected]
  · omega
  · intro position circumstances interrupted
    unfold Position.isInterrupted at interrupted
    split at interrupted
    · rfl
    · cases interrupted
  · intro position circumstances rejects
    obtain ⟨⟨block, rfl⟩, _⟩ := Position.answer_of_rejects rejects
    rfl
  · intro position circumstances accepts
    obtain ⟨⟨block, rfl⟩, answer⟩ := Position.answer_of_accepts accepts
    simp [Position.rejects, Position.rejected?, answer, Position.isInterrupted,
      Position.isStopped]

/-- The interrupts that have been sent to a worker and have ended no wait yet. -/
def signals (worker : Worker) : Nat :=
  worker.mailbox.queue.countP (· ≠ .stop) + worker.position.isDraining.toNat

theorem signals_advance {worker later : Worker}
    (advance : worker.Advance engine circumstances later) :
    signals later + worker.position.isInterrupted.toNat ≤ signals worker := by
  unfold signals
  cases advance with
  | @taking task confirmed wait reason rest standing unfinished queued
  | @stopping task confirmed wait rest standing unfinished queued =>
      rw [standing, queued]
      cases wait with
      | listening | timedOut | draining last => simp [Position.isDraining, Position.isInterrupted]
      | _ => exact absurd rfl (unfinished _)
  | losing standing patient empty disconnected =>
      rw [standing]
      rcases patient with rfl | rfl
      · exact Nat.le_refl _
      · exact Nat.le_refl _
  | retiring standing given queue =>
      rw [standing, queue]
      exact Nat.le_refl _
  | _ =>
      rw [‹worker.position = _›]
      exact Nat.le_refl _

theorem Recast.signals (recast : Recast moment) :
    moment.after.total Engine.signals +
        (moment.works fun position _ => position.isInterrupted).toNat ≤
      moment.before.total Engine.signals + moment.delivers.toNat := by
  cases recast with
  | same still workers =>
      rw [works_of_still still, total_of_same _ workers]
      exact Nat.le_add_right _ _
  | grown still generation context workers =>
      rw [works_of_still still, total_of_grown _ workers]
      exact Nat.le_add_right _ _
  | @sent still number worker signal told found workers =>
      have sum := total_of_changed Engine.signals found workers
      have more : Engine.signals { worker with mailbox := worker.mailbox.send signal } ≤
          Engine.signals worker + moment.delivers.toNat := by
        rcases told with rfl | delivers
        · simp [Engine.signals, Mailbox.send]
        · rw [delivers]
          cases signal with
          | stop => simp [Engine.signals, Mailbox.send]
          | interrupt reason =>
              simp [Engine.signals, Mailbox.send]
              omega
      rw [works_of_still still]
      simp only [Bool.toNat_false] at sum more ⊢
      omega
  | stepped own found advance workers =>
      have sum := total_of_changed Engine.signals found workers
      have spent := signals_advance advance
      rw [works_of_work (work?_of_found own found)]
      omega

/-- An interrupt that is sent ends at most one iteration. -/
theorem Reaches.interrupted_le (reached : start.Reaches history finish) (tended : start.Tended)
    (none : start.workers = []) :
    finish.total signals + interrupted history ≤ history.countP Moment.delivers := by
  induction reached with
  | refl =>
      rw [total, none]
      exact Nat.le_refl _
  | @move history engine next move events reached made inductionHypothesis =>
      have tendedHere := reached.keeps (fun kept made => Tended.kept kept made) tended
      have step := (tendedHere.recast made).signals
      rw [interrupted] at inductionHypothesis ⊢
      rw [count_append, List.countP_append, List.countP_singleton]
      cases delivers : Moment.delivers ⟨engine, move, events, next⟩ with
      | true =>
          simp only [delivers, Bool.toNat_true, if_true] at step ⊢
          omega
      | false =>
          simp only [delivers, Bool.toNat_false, Bool.false_eq_true, if_false] at step ⊢
          omega

end Engine

end MiningAgent
