import MiningAgent.Proofs.Run.Alone
import MiningAgent.Proofs.Run.Waiting
import Mathlib.Logic.Function.Iterate

/-!
# A loop that nobody sends to

What a worker makes of the signals that are queued for it when it enters its loop, if nothing
is sent to it any more.  Each iteration draws from the stream and takes from the queue, so a stop
in the queue or the loss of the sender ends the loop.

* `Engine.place`: the engine with one worker at some place, with some mailbox.
* `Engine.iterated`: what iterations without a block leave of the stream and of the counters.
-/

namespace MiningAgent

namespace Event

def isIteration : Event → Bool
  | .logged (.iteration _ _ _) => true
  | _ => false

/-- The mining error that is told. -/
def fault? : Event → Option Fault
  | .logged (.miningError fault) => some fault
  | _ => none

/-- What a draw leaves of the stream. -/
def drawn? : Event → Option Generator
  | .drew stream => some stream
  | _ => none

end Event

namespace Engine

/-- The engine with a worker at some place, with some mailbox. -/
def place (engine : Engine) (number : Nat) (worker : Worker) (mailbox : Mailbox)
    (position : Position) : Engine :=
  engine.changeWorker number fun _ => { worker with mailbox := mailbox, position := position }

/-- The delay that the next iteration draws. -/
def nextDelay (engine : Engine) : UInt64 :=
  Discovery.saturate (Discovery.exactDelay engine.agent.logarithm
    engine.agent.hashrate.perSecond engine.tracker.current.difficulty
    (1 - engine.stream.next.uniform))

/-- The engine after a number of iterations that found no block. -/
def iterated (engine : Engine) (count : Nat) : Engine :=
  { engine with
    stream := Generator.next^[count] engine.stream
    tally := { engine.tally with iterations := engine.tally.iterations + UInt64.ofNat count } }

variable {circumstances : Engine → Circumstances} {engine : Engine} {number : Nat}
  {worker : Worker} {mailbox : Mailbox} {position : Position} {task : Task} {confirmed : Bool}

theorem place_found (found : engine.workers[number]? = some worker) (mailbox : Mailbox)
    (position : Position) :
    (engine.place number worker mailbox position).workers[number]? =
      some { worker with mailbox := mailbox, position := position } := by
  simp [place, found]

theorem changeWorker_place (change : Worker → Worker) :
    (engine.place number worker mailbox position).changeWorker number change =
      engine.changeWorker number fun _ =>
        change { worker with mailbox := mailbox, position := position } := by
  rw [place, changeWorker_changeWorker]
  rfl

theorem moveWorker_place (engine : Engine) (number : Nat) (worker : Worker) (mailbox : Mailbox)
    (position later : Position) :
    (engine.place number worker mailbox position).moveWorker number later =
      engine.place number worker mailbox later := by
  rw [moveWorker_eq, changeWorker_place]
  rfl

theorem moveWorker_of_found (found : engine.workers[number]? = some worker)
    (position : Position) :
    engine.moveWorker number position = engine.place number worker worker.mailbox position := by
  rw [moveWorker_eq, place]
  apply changeWorker_congr
  intro other present
  rw [found] at present
  cases present
  rfl

/-- What the drawing and the counting of an iteration show. -/
def iterationEvents (engine : Engine) : List Event :=
  [.drew engine.stream.next,
    .logged (.iteration engine.tracker.current.difficulty engine.agent.hashrate.perSecond
      engine.nextDelay)]

/-- What an iteration knows once it has drawn. -/
def nextTask (engine : Engine) : Task := ⟨engine.tracker.current, engine.nextDelay⟩

/-- An iteration draws its delay, is counted and begins to wait. -/
theorem leads_iteration (found : engine.workers[number]? = some worker)
    (hashrate : engine.agent.hashrate.perSecond ≠ 0)
    (difficulty : engine.tracker.current.difficulty ≠ 0) (mailbox : Mailbox) :
    Leads (.worker number) circumstances 3 (engine.place number worker mailbox .reading)
      engine.iterationEvents
      ((engine.iterated 1).place number worker mailbox
        (.waiting engine.nextTask false .listening)) := by
  let drawn := { engine with stream := engine.stream.next }
  have reads (circumstances : Circumstances) :
      (engine.place number worker mailbox .reading).step (.worker number) circumstances =
        some (engine.place number worker mailbox (.drawing engine.tracker.current), []) := by
    simp only [step, stepWorker, place_found found, moveWorker_place]
    rfl
  have draws (circumstances : Circumstances) :
      (engine.place number worker mailbox (.drawing engine.tracker.current)).step
          (.worker number) circumstances =
        some (drawn.place number worker mailbox (.counting engine.nextTask),
          [.drew engine.stream.next]) := by
    let placed := engine.place number worker mailbox (.drawing engine.tracker.current)
    have rated : Discovery.drawDelay placed.agent.logarithm placed.agent.hashrate.perSecond
        engine.tracker.current.difficulty placed.stream =
        .ok (engine.nextDelay, engine.stream.next) :=
      Discovery.drawDelay_rated hashrate difficulty
    simp only [placed] at rated
    simp only [step, stepWorker, place_found found, drawDelay, rated]
    rw [← moveWorker_place drawn number worker mailbox (.drawing engine.tracker.current)]
    rfl
  have counts (circumstances : Circumstances) :
      (drawn.place number worker mailbox (.counting engine.nextTask)).step (.worker number)
          circumstances =
        some ((engine.iterated 1).place number worker mailbox
            (.waiting engine.nextTask false .listening),
          [.logged (.iteration engine.tracker.current.difficulty engine.agent.hashrate.perSecond
            engine.nextDelay)]) := by
    have foundStill : drawn.workers[number]? = some worker := found
    simp only [step, stepWorker, place_found foundStill]
    rw [← moveWorker_place (engine.iterated 1) number worker mailbox (.counting engine.nextTask)]
    rfl
  exact .step (reads _) (.step (draws _) (.one (counts _)))

theorem step_waiting {wait next : Wait} {rest : Mailbox} {circumstances : Circumstances}
    (found : engine.workers[number]? = some worker)
    (taken : wait.step mailbox circumstances.delayOver = some (next, rest)) :
    (engine.place number worker mailbox (.waiting task confirmed wait)).step (.worker number)
        circumstances =
      some (engine.place number worker rest (.waiting task confirmed next), []) := by
  cases wait with
  | listening | timedOut | draining last =>
      simp only [step, stepWorker, place_found found, taken, changeWorker_place]
      rfl
  | _ => simp [Wait.step] at taken

/-- A wait that need not wait for anybody comes to its end, whatever its delay. -/
theorem leads_wait {wait : Wait} (found : engine.workers[number]? = some worker)
    (due : wait ≠ .listening ∨ mailbox.queue ≠ [] ∨ mailbox.connected = false) :
    Leads (.worker number) circumstances (wait.remaining mailbox)
      (engine.place number worker mailbox (.waiting task confirmed wait)) []
      (engine.place number worker (wait.run mailbox).2
        (.waiting task confirmed (.over (wait.run mailbox).1))) := by
  induction wait, mailbox using Wait.run.induct with
  | case1 wait mailbox next rest taken inductionHypothesis =>
      rw [Wait.run_of_step taken]
      have onward := inductionHypothesis (.inl (Wait.step_cases taken).ne_listening)
      have received : wait.step mailbox (circumstances (engine.place number worker mailbox
          (.waiting task confirmed wait))).delayOver = some (next, rest) := by
        rw [Wait.step_of_due due, taken]
      exact (Leads.step (step_waiting found received) onward).mono (Wait.remaining_step taken)
  | case2 wait mailbox blocked =>
      obtain ⟨outcome, rfl⟩ := Wait.over_of_step_eq_none blocked
      rw [Wait.run_over]
      exact .here

theorem leads_leaving (found : engine.workers[number]? = some worker) :
    Leads (.worker number) circumstances 1 (engine.place number worker mailbox .leaving)
      [.logged .loopStopped] (engine.place number worker mailbox .exited) := by
  apply Leads.one
  simp only [step, stepWorker, place_found found, moveWorker_place]

theorem leads_over {outcome : Outcome} (found : engine.workers[number]? = some worker) :
    Leads (.worker number) circumstances 1
      (engine.place number worker mailbox (.waiting task confirmed (.over outcome)))
      (outcome.entries.map .logged)
      (engine.place number worker mailbox (.afterWait task confirmed outcome)) := by
  apply Leads.one
  simp only [step, stepWorker, place_found found, moveWorker_place]

theorem leads_entering (found : engine.workers[number]? = some worker)
    (entering : worker.position = .entering) :
    Leads (.worker number) circumstances 1 engine [.logged .loopStarted]
      (engine.place number worker worker.mailbox .reading) := by
  apply Leads.one
  simp only [step, stepWorker, found, entering, moveWorker_of_found found]

theorem exited_blocked (found : engine.workers[number]? = some worker)
    (circumstances : Circumstances) :
    (engine.place number worker mailbox .exited).step (.worker number) circumstances = none := by
  simp only [step, stepWorker, place_found found]

theorem iterated_iterated (engine : Engine) (first second : Nat) :
    (engine.iterated first).iterated second = engine.iterated (first + second) := by
  simp only [iterated, Nat.add_comm first second, Function.iterate_add_apply, UInt64.ofNat_add,
    UInt64.add_assoc, UInt64.add_comm (UInt64.ofNat first)]

section Rated

variable (found : engine.workers[number]? = some worker)
  (hashrate : engine.agent.hashrate.perSecond ≠ 0)
  (difficulty : engine.tracker.current.difficulty ≠ 0)

include found hashrate difficulty

/-- An iteration whose wait finds signals, or no sender, to the end of the wait. -/
theorem leads_over_iteration (due : mailbox.queue ≠ [] ∨ mailbox.connected = false) :
    Leads (.worker number) circumstances (mailbox.queue.length + 7)
      (engine.place number worker mailbox .reading)
      (engine.iterationEvents ++ (Wait.listening.run mailbox).1.entries.map .logged)
      ((engine.iterated 1).place number worker (Wait.listening.run mailbox).2
        (.afterWait engine.nextTask false (Wait.listening.run mailbox).1)) := by
  have foundStill : (engine.iterated 1).workers[number]? = some worker := found
  have iterates : Leads (.worker number) circumstances 3 _ _ _ :=
    leads_iteration found hashrate difficulty mailbox
  have ends := iterates.trans ((leads_wait foundStill (.inr due)).trans (leads_over foundStill))
  exact ends.mono (by simp only [Wait.remaining]; omega)

/-- An iteration whose wait is stopped is the last. -/
theorem leads_last_iteration {left : Mailbox}
    (stopped : Wait.listening.run mailbox = (.stopped, left))
    (due : mailbox.queue ≠ [] ∨ mailbox.connected = false) :
    Leads (.worker number) circumstances (mailbox.queue.length + 8)
      (engine.place number worker mailbox .reading)
      (engine.iterationEvents ++ [.logged .loopStopped])
      ((engine.iterated 1).place number worker left .exited) := by
  have iterates : Leads (.worker number) circumstances _ _ _ _ :=
    leads_over_iteration found hashrate difficulty due
  rw [stopped] at iterates
  have foundStill : (engine.iterated 1).workers[number]? = some worker := found
  simpa [Outcome.entries] using iterates.trans (leads_leaving foundStill)

end Rated

/-- The end of a loop that found no block: only the iterations show, in the stream and in their
counter, and the worker has left its loop with `behind` in its queue. -/
structure EndedAfter (engine : Engine) (number count : Nat) (behind : List Signal)
    (followed : Engine × List Event) : Prop where
  finish : followed.1 = (engine.iterated count).changeWorker number fun worker =>
    { worker with mailbox := { worker.mailbox with queue := behind }, position := .exited }
  iterations : followed.2.countP Event.isIteration = count
  draws : followed.2.filterMap Event.drawn? =
    (List.range count).map fun index => Generator.next^[index + 1] engine.stream
  unannounced : ∀ context block, .offered context block ∉ followed.2
  faults : followed.2.filterMap Event.fault? = []

theorem place_exited (found : engine.workers[number]? = some worker) (behind : List Signal) :
    engine.place number worker ⟨behind, worker.mailbox.connected⟩ .exited =
      engine.changeWorker number fun worker =>
        { worker with
          mailbox := { worker.mailbox with queue := behind }
          position := .exited } := by
  apply changeWorker_congr
  intro other present
  rw [found] at present
  cases present
  rfl

section Rated

variable {bound : Nat} (found : engine.workers[number]? = some worker)
  (entering : worker.position = .entering) (enough : worker.remaining ≤ bound)
  (hashrate : engine.agent.hashrate.perSecond ≠ 0)
  (difficulty : engine.tracker.current.difficulty ≠ 0)

include found entering enough hashrate difficulty

theorem ended_after_one {behind : List Signal}
    (stopped : Wait.listening.run worker.mailbox =
      (.stopped, ⟨behind, worker.mailbox.connected⟩))
    (due : worker.mailbox.queue ≠ [] ∨ worker.mailbox.connected = false) :
    engine.EndedAfter number 1 behind (follow (.worker number) circumstances bound engine) := by
  have enters : Leads (.worker number) circumstances _ _ _ _ := leads_entering found entering
  have leads := enters.trans (leads_last_iteration found hashrate difficulty stopped due)
  have foundStill : (engine.iterated 1).workers[number]? = some worker := found
  rw [leads.follow (exited_blocked foundStill _) ?_]
  · exact
      { finish := place_exited foundStill behind
        iterations := rfl
        draws := rfl
        unannounced := by simp [iterationEvents]
        faults := rfl }
  · simp only [Worker.remaining, entering, Position.remaining] at enough
    omega

/-- A loop whose first wait is interrupted, and whose second finds neither signals nor a
sender. -/
theorem ended_after_two {reason : Interruption}
    (interrupted : Wait.listening.run worker.mailbox =
      (.interrupted reason, ⟨[], worker.mailbox.connected⟩))
    (queued : worker.mailbox.queue ≠ []) (lost : worker.mailbox.connected = false) :
    engine.EndedAfter number 2 [] (follow (.worker number) circumstances bound engine) := by
  have foundStill : (engine.iterated 1).workers[number]? = some worker := found
  have enters : Leads (.worker number) circumstances _ _ _ _ := leads_entering found entering
  have first : Leads (.worker number) circumstances _ _ _ _ :=
    leads_over_iteration found hashrate difficulty (.inl queued)
  rw [interrupted] at first
  have stopped : Wait.listening.run ⟨[], worker.mailbox.connected⟩ =
      (.stopped, ⟨[], worker.mailbox.connected⟩) := Wait.run_of_lost rfl lost
  have second : Leads (.worker number) circumstances _ _ _ _ :=
    leads_last_iteration foundStill hashrate difficulty stopped (.inr lost)
  have leads := enters.trans (first.trans second)
  rw [iterated_iterated] at leads
  have foundAtEnd : (engine.iterated 2).workers[number]? = some worker := found
  rw [leads.follow (exited_blocked foundAtEnd _) ?_]
  · exact
      { finish := place_exited foundAtEnd []
        iterations := rfl
        draws := rfl
        unannounced := by simp [iterationEvents, Outcome.entries]
        faults := rfl }
  · simp only [Worker.remaining, entering, Position.remaining] at enough
    simp only [List.length_nil]
    omega

end Rated

/-! ## Loops without a rate -/

theorem moved_found (found : engine.workers[number]? = some worker) (position : Position) :
    (engine.moveWorker number position).workers[number]? =
      some { worker with position := position } := by
  simp [found]

/-- Moving a worker and taking the sender from one do not interfere. -/
theorem disconnect_moveWorker (engine : Engine) (number other : Nat) (position : Position) :
    (engine.moveWorker number position).disconnect other =
      (engine.disconnect other).moveWorker number position := by
  have workers : ((engine.moveWorker number position).disconnect other).workers =
      ((engine.disconnect other).moveWorker number position).workers := by
    apply List.ext_getElem?
    intro place
    simp only [disconnect, moveWorker_eq, changeWorker_getElem?]
    split <;> split <;> simp [Option.map_map, Function.comp_def]
  simp only [disconnect, moveWorker, changeWorker] at workers ⊢
  rw [workers]

/-- Giving up a run does not depend on where a worker stands. -/
theorem stepRetirement_moveWorker (engine : Engine) (number : Nat) (position : Position)
    (actor : Actor) (circumstances : Circumstances) (retirement : Retirement) :
    (engine.moveWorker number position).stepRetirement actor circumstances retirement =
      (engine.stepRetirement actor circumstances retirement).map
        fun (later, changed) => (later, changed.moveWorker number position) := by
  cases retirement with
  | locking generation =>
      simp only [stepRetirement, moveWorker_eq, changeWorker_slotHolder]
      by_cases free : engine.slotHolder = none
      · simp only [free, if_true]
        rfl
      · simp only [free, if_false]
        rfl
  | claiming generation =>
      simp only [stepRetirement, moveWorker_eq, changeWorker_slot]
      split
      · split <;> rfl
      · rfl
  | accounting run =>
      let counted := { engine with
        tally := engine.tally.addMiningTime (run.started.elapsed circumstances.now) }
      exact congrArg (fun changed => some (Retirement.unlocking, changed))
        (disconnect_moveWorker counted number run.worker position)
  | unlocking | done => rfl

theorem disconnect_found (found : engine.workers[number]? = some worker) (other : Nat) :
    ∃ connected, (engine.disconnect other).workers[number]? =
      some { worker with mailbox := { worker.mailbox with connected := connected } } := by
  simp only [disconnect, changeWorker_getElem?, found]
  split
  · exact ⟨false, rfl⟩
  · exact ⟨worker.mailbox.connected, rfl⟩

section Unrated

variable {fault : Fault} (found : engine.workers[number]? = some worker)

include found

theorem step_moved_retiring {retirement later : Retirement} {changed : Engine}
    {circumstances : Circumstances}
    (given : engine.stepRetirement (.worker number) circumstances retirement =
      some (later, changed)) :
    (engine.moveWorker number (.retiring retirement fault)).step (.worker number) circumstances =
      some (changed.moveWorker number (.retiring later fault), []) := by
  have unfinished : retirement ≠ .done := by
    rintro rfl
    cases given
  rw [step_retiring (moved_found found _) rfl unfinished, stepRetirement_moveWorker, given]
  simp only [Option.map_some, moveWorker_moveWorker]

/-- A worker that has given up its run handles the fault that ended it, and leaves. -/
theorem leads_dying :
    Leads (.worker number) circumstances 12 (engine.moveWorker number (.retiring .done fault))
      ((engine.moveWorker number (.dying (.counting fault))).reportingEvents (.worker number)
        circumstances fault ++ [.logged .loopStopped])
      (({ engine with tally := engine.tally.countError }).moveWorker number .exited) := by
  let counted := { engine with tally := engine.tally.countError }
  have foundStill : counted.workers[number]? = some worker := found
  have turns (circumstances : Circumstances) :
      (engine.moveWorker number (.retiring .done fault)).step (.worker number) circumstances =
        some (engine.moveWorker number (.dying (.counting fault)), []) := by
    simp only [step, stepWorker, moved_found found, moveWorker_moveWorker]
  have standing : (engine.moveWorker number (.dying (.counting fault))).reporting?
      (.worker number) = some (.counting fault) := by
    simp only [reporting?, moved_found found]
    rfl
  have reports : Leads (.worker number) circumstances _ _ _ _ := leads_reporting standing
  have reported : (counted.moveWorker number (.dying (.counting fault))).setReporting
      (.worker number) .done = counted.moveWorker number (.dying .done) := by
    rw [setReporting, moveWorker_eq, changeWorker_changeWorker]
    rfl
  have leaves (circumstances : Circumstances) :
      (counted.moveWorker number (.dying .done)).step (.worker number) circumstances =
        some (counted.moveWorker number .leaving, []) := by
    simp only [step, stepWorker, moved_found foundStill, moveWorker_moveWorker]
  have exits (circumstances : Circumstances) :
      (counted.moveWorker number .leaving).step (.worker number) circumstances =
        some (counted.moveWorker number .exited, [.logged .loopStopped]) := by
    simp only [step, stepWorker, moved_found foundStill, moveWorker_moveWorker]
  have ends : Leads (.worker number) circumstances 2 (counted.moveWorker number (.dying .done)) _
      _ := .step (leaves _) (.one (exits _))
  rw [← reported] at ends
  have leads := Leads.step (turns _) (reports.trans ends)
  exact leads

/-- Without a rate a loop gives up its run before it draws. -/
theorem leads_retiring (entering : worker.position = .entering)
    (unrated : engine.agent.hashrate.perSecond = 0 ∨ engine.tracker.current.difficulty = 0)
    (free : engine.slotHolder = none) :
    Leads (.worker number) circumstances 4 engine [.logged .loopStarted]
      (({ engine with slotHolder := some (.worker number) }).moveWorker number
        (.retiring (.claiming worker.generation)
          (.invalidRate engine.agent.hashrate.perSecond engine.tracker.current.difficulty))) := by
  let fault : Fault :=
    .invalidRate engine.agent.hashrate.perSecond engine.tracker.current.difficulty
  let locked := { engine with slotHolder := some (.worker number) }
  have enters (circumstances : Circumstances) :
      engine.step (.worker number) circumstances =
        some (engine.moveWorker number .reading, [.logged .loopStarted]) := by
    simp only [step, stepWorker, found, entering]
  have reads (circumstances : Circumstances) :
      (engine.moveWorker number .reading).step (.worker number) circumstances =
        some (engine.moveWorker number (.drawing engine.tracker.current), []) := by
    simp only [step, stepWorker, moved_found found, moveWorker_moveWorker]
    rfl
  have draws (circumstances : Circumstances) :
      (engine.moveWorker number (.drawing engine.tracker.current)).step (.worker number)
          circumstances =
        some (engine.moveWorker number (.retiring (.locking worker.generation) fault), []) := by
    have failed := drawDelay_unrated
      (engine.moveWorker number (.drawing engine.tracker.current)) number
      { worker with position := .drawing engine.tracker.current } unrated
    rw [moveWorker_moveWorker] at failed
    simp only [step, stepWorker, moved_found found]
    rw [failed]
    rfl
  have locks (circumstances : Circumstances) :
      (engine.moveWorker number (.retiring (.locking worker.generation) fault)).step
          (.worker number) circumstances =
        some (locked.moveWorker number (.retiring (.claiming worker.generation) fault), []) :=
    step_moved_retiring found (if_pos free)
  exact .step (enters _) (.step (reads _) (.step (draws _) (.one (locks _))))

theorem leads_unlocking (free : engine.slotHolder = none) (holder : Actor) :
    Leads (.worker number) circumstances 1
      (({ engine with slotHolder := some holder }).moveWorker number
        (.retiring .unlocking fault)) []
      (engine.moveWorker number (.retiring .done fault)) := by
  let locked := { engine with slotHolder := some holder }
  have foundStill : locked.workers[number]? = some worker := found
  have given (circumstances : Circumstances) :
      locked.stepRetirement (.worker number) circumstances .unlocking = some (.done, engine) := by
    simp only [stepRetirement, locked, ← free]
  exact .one (step_moved_retiring foundStill (given _))

theorem leads_claiming_foreign (free : engine.slotHolder = none)
    (foreign : ∀ run, engine.slot.active = some run → run.generation ≠ worker.generation) :
    Leads (.worker number) circumstances 2
      (({ engine with slotHolder := some (.worker number) }).moveWorker number
        (.retiring (.claiming worker.generation) fault)) []
      (engine.moveWorker number (.retiring .done fault)) := by
  let locked := { engine with slotHolder := some (.worker number) }
  have foundStill : locked.workers[number]? = some worker := found
  have claims (circumstances : Circumstances) :
      (locked.moveWorker number (.retiring (.claiming worker.generation) fault)).step
          (.worker number) circumstances =
        some (locked.moveWorker number (.retiring .unlocking fault), []) := by
    apply step_moved_retiring foundStill
    simp only [stepRetirement]
    split
    · rename_i run active
      exact if_neg (foreign run active)
    · rfl
  exact .step (claims _) (leads_unlocking found free (.worker number))

omit found in
/-- An agent whose worker has just taken its own run out of the slot, to count its time. -/
def claimed (engine : Engine) (number : Nat) (run : Run) (fault : Fault) : Engine :=
  ({ engine with
      slot := { engine.slot with active := none }
      slotHolder := some (.worker number) }).moveWorker number
    (.retiring (.accounting run) fault)

/-- A run of the worker's own generation leaves the slot, and its time is counted. -/
theorem leads_claiming_own {run : Run} (free : engine.slotHolder = none)
    (active : engine.slot.active = some run) (own : run.generation = worker.generation) :
    Leads (.worker number) circumstances 3
      (({ engine with slotHolder := some (.worker number) }).moveWorker number
        (.retiring (.claiming worker.generation) fault)) []
      ((({ engine with
            slot := { engine.slot with active := none }
            tally := engine.tally.addMiningTime (run.started.elapsed
              (circumstances (engine.claimed number run fault)).now) }).disconnect
        run.worker).moveWorker number (.retiring .done fault)) := by
  let locked := { engine with slotHolder := some (.worker number) }
  let emptied := { locked with slot := { engine.slot with active := none } }
  have foundStill : locked.workers[number]? = some worker := found
  have foundThen : emptied.workers[number]? = some worker := found
  have claims (circumstances : Circumstances) :
      (locked.moveWorker number (.retiring (.claiming worker.generation) fault)).step
          (.worker number) circumstances =
        some (engine.claimed number run fault, []) := by
    apply step_moved_retiring foundStill
    simp only [stepRetirement, locked, active, if_pos own]
  let counted := { engine with
    slot := { engine.slot with active := none }
    tally := engine.tally.addMiningTime (run.started.elapsed
      (circumstances (engine.claimed number run fault)).now) }
  have foundThere : counted.workers[number]? = some worker := found
  obtain ⟨connected, foundAfter⟩ := disconnect_found foundThere run.worker
  have accounts : (engine.claimed number run fault).step (.worker number)
      (circumstances (engine.claimed number run fault)) =
      some ((({ counted with slotHolder := some (.worker number) }).disconnect
        run.worker).moveWorker number (.retiring .unlocking fault), []) :=
    step_moved_retiring foundThen rfl
  exact .step (claims _) (.step accounts (leads_unlocking foundAfter free (.worker number)))

end Unrated

/-- The end of a loop that never came to an iteration: the fault is told once, and the worker has
left its loop with its queue untouched. -/
structure GivenUp (number : Nat) (worker : Worker) (fault : Fault) (finish : Engine)
    (followed : Engine × List Event) : Prop where
  finish : followed.1 = finish
  exited : ∃ connected, followed.1.workers[number]? =
    some { worker with
      mailbox := { worker.mailbox with connected := connected }
      position := .exited }
  iterations : followed.2.countP Event.isIteration = 0
  draws : followed.2.filterMap Event.drawn? = []
  unannounced : ∀ context block, .offered context block ∉ followed.2
  faults : followed.2.filterMap Event.fault? = [fault]

/-- A report shows at most that it was written, or that it was not. -/
theorem reportingEvents_cases (engine : Engine) (actor : Actor)
    (circumstances : Engine → Circumstances) (fault : Fault) :
    let events := engine.reportingEvents actor circumstances fault
    events = [.logged (.miningError fault)] ∨
      (∃ path report, events = [.logged (.miningError fault), .wrote path report,
        .logged (.reportWritten path)]) ∨
      ∃ path reason, events = [.logged (.miningError fault),
        .logged (.errorReportFailed path reason)] := by
  intro events
  simp only [events, reportingEvents]
  cases engine.reportTarget fault with
  | none => exact .inl rfl
  | some path =>
      simp only [Option.elim_some, writing]
      split
      · exact .inr (.inl ⟨path, _, rfl⟩)
      · exact .inr (.inr ⟨path, _, rfl⟩)

theorem GivenUp.of_leads {fault : Fault} {finish reporter : Engine} {actor : Actor}
    {bound enough : Nat} {connected : Bool}
    (found : finish.workers[number]? =
      some { worker with mailbox := { worker.mailbox with connected := connected } })
    (leads : Leads (.worker number) circumstances bound engine
      ([.logged .loopStarted] ++ (reporter.reportingEvents actor circumstances fault ++
        [.logged .loopStopped])) (finish.moveWorker number .exited))
    (le : bound ≤ enough) :
    GivenUp number worker fault (finish.moveWorker number .exited)
      (follow (.worker number) circumstances enough engine) := by
  have blocked : (finish.moveWorker number .exited).step (.worker number)
      (circumstances (finish.moveWorker number .exited)) = none := by
    simp only [step, stepWorker, moved_found found]
  rw [leads.follow blocked le]
  have exited := moved_found found .exited
  rcases reportingEvents_cases reporter actor circumstances fault with told | told | told
  · rw [told]
    exact ⟨rfl, ⟨connected, exited⟩, rfl, rfl, by simp, rfl⟩
  · obtain ⟨path, report, told⟩ := told
    rw [told]
    exact ⟨rfl, ⟨connected, exited⟩, rfl, rfl, by simp, rfl⟩
  · obtain ⟨path, reason, told⟩ := told
    rw [told]
    exact ⟨rfl, ⟨connected, exited⟩, rfl, rfl, by simp, rfl⟩

section Unrated

variable {bound : Nat} (found : engine.workers[number]? = some worker)
  (entering : worker.position = .entering) (enough : worker.remaining ≤ bound)
  (unrated : engine.agent.hashrate.perSecond = 0 ∨ engine.tracker.current.difficulty = 0)
  (free : engine.slotHolder = none)

include found entering enough unrated free

/-- A loop without a rate whose run is in the slot: the time of the run is counted. -/
theorem given_up_own {run : Run} (active : engine.slot.active = some run)
    (own : run.generation = worker.generation) :
    let fault : Fault :=
      .invalidRate engine.agent.hashrate.perSecond engine.tracker.current.difficulty
    let elapsed := run.started.elapsed (circumstances (engine.claimed number run fault)).now
    GivenUp number worker fault
      ((({ engine with
          slot := { engine.slot with active := none }
          tally := (engine.tally.addMiningTime elapsed).countError }).disconnect
        run.worker).moveWorker number .exited)
      (follow (.worker number) circumstances bound engine) := by
  intro fault elapsed
  let counted := { engine with
    slot := { engine.slot with active := none }
    tally := engine.tally.addMiningTime elapsed }
  have foundThere : counted.workers[number]? = some worker := found
  obtain ⟨connected, foundAfter⟩ := disconnect_found foundThere run.worker
  have retires : Leads (.worker number) circumstances _ _ _ _ :=
    leads_retiring found entering unrated free
  have leads := retires.trans
    ((leads_claiming_own found free active own).trans (leads_dying foundAfter))
  simp only [Worker.remaining, entering, Position.remaining] at enough
  exact .of_leads foundAfter leads (by omega)

/-- A loop without a rate whose run is no longer in the slot. -/
theorem given_up_foreign
    (foreign : ∀ run, engine.slot.active = some run → run.generation ≠ worker.generation) :
    GivenUp number worker
      (.invalidRate engine.agent.hashrate.perSecond engine.tracker.current.difficulty)
      (({ engine with tally := engine.tally.countError }).moveWorker number .exited)
      (follow (.worker number) circumstances bound engine) := by
  have retires : Leads (.worker number) circumstances _ _ _ _ :=
    leads_retiring found entering unrated free
  have leads := retires.trans
    ((leads_claiming_foreign found free foreign).trans (leads_dying found))
  simp only [Worker.remaining, entering, Position.remaining] at enough
  exact .of_leads found leads (by omega)

end Unrated

/-- A loop that nobody sends to ends as its queue says. -/
theorem loop_ends_by_its_queue {bound : Nat} (found : engine.workers[number]? = some worker)
    (entering : worker.position = .entering) (circumstances : Engine → Circumstances)
    (enough : worker.remaining ≤ bound) :
    let followed := follow (.worker number) circumstances bound engine
    let queue := worker.mailbox.queue
    let hashrate := engine.agent.hashrate.perSecond
    let difficulty := engine.tracker.current.difficulty
    (hashrate ≠ 0 → difficulty ≠ 0 →
      (∀ front behind, .stop ∉ front → queue = front ++ .stop :: behind →
          engine.EndedAfter number 1 behind followed) ∧
        (queue = [] → worker.mailbox.connected = false →
          engine.EndedAfter number 1 [] followed) ∧
        (queue ≠ [] → .stop ∉ queue → worker.mailbox.connected = false →
          engine.EndedAfter number 2 [] followed)) ∧
      (hashrate = 0 ∨ difficulty = 0 → engine.slotHolder = none →
        let fault := .invalidRate hashrate difficulty
        (∀ run, engine.slot.active = some run → run.generation = worker.generation →
            let elapsed := run.started.elapsed (circumstances (engine.claimed number run fault)).now
            GivenUp number worker fault
              ((({ engine with
                  slot := { engine.slot with active := none }
                  tally := (engine.tally.addMiningTime elapsed).countError }).disconnect
                run.worker).moveWorker number .exited) followed) ∧
          ((∀ run, engine.slot.active = some run → run.generation ≠ worker.generation) →
            GivenUp number worker fault
              (({ engine with tally := engine.tally.countError }).moveWorker number .exited)
              followed)) := by
  intro followed queue hashrate difficulty
  refine ⟨?_, ?_⟩
  · intro rate rated
    refine ⟨?_, ?_, ?_⟩
    · intro front behind unstopped same
      have drains : Signal.Drains worker.mailbox.queue .stopped behind := by
        rw [show worker.mailbox.queue = _ from same]
        exact .stopped unstopped
      exact ended_after_one found entering enough rate rated (Wait.run_of_drains drains)
        (.inl drains.queue_ne_nil)
    · intro empty lost
      have stopped : Wait.listening.run worker.mailbox =
          (.stopped, ⟨[], worker.mailbox.connected⟩) := by
        rw [Wait.run_of_lost empty lost, ← show worker.mailbox.queue = [] from empty]
      exact ended_after_one found entering enough rate rated stopped (.inr lost)
    · intro queued unstopped lost
      obtain ⟨last, drains⟩ := Signal.drains_unstopped queued unstopped
      exact ended_after_two found entering enough rate rated (Wait.run_of_drains drains) queued
        lost
  · intro unrated free fault
    refine ⟨?_, ?_⟩
    · intro run active own
      exact given_up_own found entering enough unrated free active own
    · intro foreign
      exact given_up_foreign found entering enough unrated free foreign

/-- A worker with two signals in its queue, and nobody to send more. -/
def forsaken : Worker :=
  ⟨1, .ofWallet "", ⟨[.interrupt .peerBlock, .interrupt .difficultyChange], false⟩, .entering⟩

/-- An agent of the given hashrate that consists of one worker and its run. -/
def lonely (hashrate : UInt64) : Engine :=
  { initial ⟨⟨0, 5⟩, ⟨hashrate⟩, fun survival => survival - 1⟩ with
    slot := ⟨1, some ⟨1, 0, ⟨0, 5⟩⟩⟩
    workers := [forsaken] }

/-- One clock reading, no delay that ever runs out, and no answer of a broadcaster. -/
def stillness : Circumstances := ⟨⟨7, 7⟩, false, none, none⟩

theorem forsaken_loops_end :
    let follows (hashrate : UInt64) : Engine × List Event :=
      follow (.worker 0) (fun _ => stillness) 200 (lonely hashrate)
    (lonely 1000).EndedAfter 0 2 [] (follows 1000) ∧
      (follows 0).1.tally = ⟨0, 0, 0, 1, 2, 0⟩ ∧ (follows 0).1.slot = ⟨1, none⟩ ∧
      (follows 0).2.filterMap Event.fault? = [.invalidRate 0 1] := by
  have found (hashrate : UInt64) : (lonely hashrate).workers[0]? = some forsaken := rfl
  have enough : forsaken.remaining ≤ 200 := by decide
  have ends (hashrate : UInt64) :=
    loop_ends_by_its_queue (found hashrate) rfl (fun _ => stillness) enough
  have failed := ((ends 0).2 (.inl rfl) rfl).1 ⟨1, 0, ⟨0, 5⟩⟩ rfl rfl
  refine ⟨((ends 1000).1 (by decide) (by decide)).2.2 (by decide) (by decide) rfl, ?_, ?_,
    failed.faults⟩
  · rw [failed.finish]
    decide
  · rw [failed.finish]
    rfl

end Engine

end MiningAgent
