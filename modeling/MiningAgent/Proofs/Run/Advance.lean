import MiningAgent.Proofs.Run.Conduct
import MiningAgent.Proofs.Run.Waiting

/-!
# The advance of a worker

`Worker.Advance` lists what one step of a worker can make of it, a constructor for
each point of its code.  Others reach a worker only through its queue: that is
`Worker.Touched`.
-/

namespace MiningAgent

/-- The cases of `Engine.stepWorker`, as seen by the worker itself. -/
inductive Worker.Advance (engine : Engine) (circumstances : Circumstances)
    (worker : Worker) : Worker → Prop
  | entering
      (standing : worker.position = .entering) :
      Advance engine circumstances worker { worker with position := .reading }
  | reading
      (standing : worker.position = .reading) :
      Advance engine circumstances worker
        { worker with position := .drawing engine.tracker.current }
  | drawing {seen : Announcement} {delay : UInt64}
      (standing : worker.position = .drawing seen) :
      Advance engine circumstances worker
        { worker with position := .counting ⟨seen, delay⟩ }
  | drawing_unrated {seen : Announcement} {fault : Fault}
      (standing : worker.position = .drawing seen)
      (unrated : engine.agent.hashrate.perSecond = 0 ∨ seen.difficulty = 0) :
      Advance engine circumstances worker
        { worker with position := .retiring (.locking worker.generation) fault }
  | counting {task : Task}
      (standing : worker.position = .counting task) :
      Advance engine circumstances worker
        { worker with position := .waiting task false .listening }
  | taking {task : Task} {confirmed : Bool} {wait : Wait} {reason : Interruption}
      {rest : List Signal}
      (standing : worker.position = .waiting task confirmed wait)
      (unfinished : ∀ outcome, wait ≠ .over outcome)
      (queued : worker.mailbox.queue = .interrupt reason :: rest) :
      Advance engine circumstances worker
        { worker with
          mailbox := { worker.mailbox with queue := rest }
          position := .waiting task confirmed (.draining reason) }
  | stopping {task : Task} {confirmed : Bool} {wait : Wait} {rest : List Signal}
      (standing : worker.position = .waiting task confirmed wait)
      (unfinished : ∀ outcome, wait ≠ .over outcome)
      (queued : worker.mailbox.queue = .stop :: rest) :
      Advance engine circumstances worker
        { worker with
          mailbox := { worker.mailbox with queue := rest }
          position := .waiting task confirmed (.over .stopped) }
  | timingOut {task : Task} {confirmed : Bool}
      (standing : worker.position = .waiting task confirmed .listening)
      (empty : worker.mailbox.queue = [])
      (connected : worker.mailbox.connected = true) :
      Advance engine circumstances worker
        { worker with position := .waiting task confirmed .timedOut }
  | expiring {task : Task} {confirmed : Bool}
      (standing : worker.position = .waiting task confirmed .timedOut)
      (empty : worker.mailbox.queue = [])
      (connected : worker.mailbox.connected = true) :
      Advance engine circumstances worker
        { worker with position := .waiting task confirmed (.over .expired) }
  | losing {task : Task} {confirmed : Bool} {wait : Wait}
      (standing : worker.position = .waiting task confirmed wait)
      (patient : wait = .listening ∨ wait = .timedOut)
      (empty : worker.mailbox.queue = [])
      (disconnected : worker.mailbox.connected = false) :
      Advance engine circumstances worker
        { worker with position := .waiting task confirmed (.over .stopped) }
  | settling {task : Task} {confirmed : Bool} {last : Interruption}
      (standing : worker.position = .waiting task confirmed (.draining last))
      (empty : worker.mailbox.queue = []) :
      Advance engine circumstances worker
        { worker with position := .waiting task confirmed (.over (.interrupted last)) }
  | expired {task : Task}
      (standing : worker.position = .waiting task false (.over .expired)) :
      Advance engine circumstances worker { worker with position := .confirming task }
  | confirmed {task : Task}
      (standing : worker.position = .waiting task true (.over .expired)) :
      Advance engine circumstances worker { worker with position := .minting task }
  | interrupted {task : Task} {confirmed : Bool} {reason : Interruption}
      (standing : worker.position = .waiting task confirmed (.over (.interrupted reason))) :
      Advance engine circumstances worker { worker with position := .reading }
  | stopped {task : Task} {confirmed : Bool}
      (standing : worker.position = .waiting task confirmed (.over .stopped)) :
      Advance engine circumstances worker { worker with position := .leaving }
  | confirming {task : Task}
      (standing : worker.position = .confirming task)
      (empty : worker.mailbox.queue = []) :
      Advance engine circumstances worker { worker with position := .minting task }
  | confirming_queued {task : Task}
      (standing : worker.position = .confirming task)
      (queued : worker.mailbox.queue ≠ []) :
      Advance engine circumstances worker
        { worker with position := .waiting task true .listening }
  | minting {task : Task} {block : Block}
      (standing : worker.position = .minting task)
      (agentId : block.agentId = engine.agent.identity.agentId)
      (height : block.height = heightAbove task.seen.height)
      (difficulty : block.difficulty = task.seen.difficulty) :
      Advance engine circumstances worker { worker with position := .offering block }
  | offering {block : Block}
      (standing : worker.position = .offering block) :
      Advance engine circumstances worker { worker with position := .broadcasting block }
  | broadcasting {block : Block}
      (standing : worker.position = .broadcasting block)
      (accepted : circumstances.answer = some .accepted) :
      Advance engine circumstances worker { worker with position := .crediting block }
  | broadcasting_rejected {block : Block} {fault : Fault}
      (standing : worker.position = .broadcasting block)
      (rejected : circumstances.answer = some (.rejected fault)) :
      Advance engine circumstances worker
        { worker with position := .failing (.counting fault) }
  | crediting {block : Block}
      (standing : worker.position = .crediting block) :
      Advance engine circumstances worker { worker with position := .dating block }
  | dating {block : Block}
      (standing : worker.position = .dating block) :
      Advance engine circumstances worker { worker with position := .reading }
  | failing {reporting : Reporting}
      (standing : worker.position = .failing reporting)
      (unfinished : reporting ≠ .done) :
      Advance engine circumstances worker
        { worker with
          position := .failing (engine.stepReporting circumstances reporting).1 }
  | failing_done
      (standing : worker.position = .failing .done) :
      Advance engine circumstances worker { worker with position := .reading }
  | retiring {retirement later : Retirement} {fault : Fault} {mailbox : Mailbox}
      {changed : Engine} {actor : Actor}
      (standing : worker.position = .retiring retirement fault)
      (given : engine.stepRetirement actor circumstances retirement =
        some (later, changed))
      (queue : mailbox.queue = worker.mailbox.queue) :
      Advance engine circumstances worker
        { worker with mailbox := mailbox, position := .retiring later fault }
  | retiring_done {fault : Fault}
      (standing : worker.position = .retiring .done fault) :
      Advance engine circumstances worker
        { worker with position := .dying (.counting fault) }
  | dying {reporting : Reporting}
      (standing : worker.position = .dying reporting)
      (unfinished : reporting ≠ .done) :
      Advance engine circumstances worker
        { worker with
          position := .dying (engine.stepReporting circumstances reporting).1 }
  | dying_done
      (standing : worker.position = .dying .done) :
      Advance engine circumstances worker { worker with position := .leaving }
  | leaving
      (standing : worker.position = .leaving) :
      Advance engine circumstances worker { worker with position := .exited }

theorem Worker.Advance.not_exited {engine : Engine} {circumstances : Circumstances}
    {worker later : Worker} (advance : worker.Advance engine circumstances later)
    (exited : worker.position = .exited) : False := by
  cases advance with
  | _ => simp_all

/-- What others can do to a worker: send it signals, or give up the sending end of
its queue. -/
structure Worker.Touched (worker later : Worker) : Prop where
  generation : later.generation = worker.generation
  context : later.context = worker.context
  position : later.position = worker.position
  queue : ∃ sent, later.mailbox.queue = worker.mailbox.queue ++ sent

theorem Worker.Touched.refl (worker : Worker) : worker.Touched worker :=
  ⟨rfl, rfl, rfl, [], by simp⟩

namespace Engine

variable {engine next : Engine} {number : Nat} {circumstances : Circumstances}
  {events : List Event}

/-- The cases of `Engine.stepRetirement`. -/
inductive RetirementStep (engine : Engine) (actor : Actor) (circumstances : Circumstances) :
    Retirement → Retirement → Engine → Prop
  | locking {generation : UInt64} (free : engine.slotHolder = none) :
      RetirementStep engine actor circumstances (.locking generation) (.claiming generation)
        { engine with slotHolder := some actor }
  | claiming {run : Run} (active : engine.slot.active = some run) :
      RetirementStep engine actor circumstances (.claiming run.generation) (.accounting run)
        { engine with slot := { engine.slot with active := none } }
  | claiming_foreign {generation : UInt64}
      (foreign : ∀ run, engine.slot.active = some run → run.generation ≠ generation) :
      RetirementStep engine actor circumstances (.claiming generation) .unlocking engine
  | accounting {run : Run} :
      RetirementStep engine actor circumstances (.accounting run) .unlocking
        (({ engine with
            tally := engine.tally.addMiningTime
              (run.started.elapsed circumstances.now) }).disconnect run.worker)
  | unlocking :
      RetirementStep engine actor circumstances .unlocking .done
        { engine with slotHolder := none }

theorem stepRetirement_cases {actor : Actor} {retirement later : Retirement}
    {changed : Engine}
    (given : engine.stepRetirement actor circumstances retirement = some (later, changed)) :
    engine.RetirementStep actor circumstances retirement later changed := by
  cases retirement with
  | locking generation =>
      simp only [stepRetirement] at given
      split at given
      · cases given
        exact .locking ‹_›
      · cases given
  | claiming generation =>
      simp only [stepRetirement] at given
      split at given
      · rename_i run active
        split at given
        · rename_i own
          cases given
          exact own ▸ .claiming active
        · rename_i foreign
          cases given
          refine .claiming_foreign ?_
          intro other taken
          cases Option.some.inj (active.symm.trans taken)
          exact foreign
      · rename_i vacant
        cases given
        refine .claiming_foreign ?_
        intro run active
        cases vacant.symm.trans active
  | accounting run =>
      simp only [stepRetirement] at given
      cases given
      exact .accounting
  | unlocking =>
      simp only [stepRetirement] at given
      cases given
      exact .unlocking
  | done => simp [stepRetirement] at given

/-- A step of a retirement leaves every worker where it is and its queue as it is. -/
theorem stepRetirement_worker {actor : Actor} {retirement later : Retirement}
    {changed : Engine} {worker : Worker}
    (given : engine.stepRetirement actor circumstances retirement = some (later, changed))
    (found : engine.workers[number]? = some worker) :
    ∃ mailbox : Mailbox, mailbox.queue = worker.mailbox.queue ∧
      changed.workers[number]? = some { worker with mailbox := mailbox } := by
  cases stepRetirement_cases given with
  | accounting =>
      simp only [disconnect, changeWorker_getElem?, found, Option.map_some]
      split
      · exact ⟨worker.mailbox.disconnect, rfl, rfl⟩
      · exact ⟨worker.mailbox, rfl, rfl⟩
  | _ => exact ⟨worker.mailbox, rfl, found⟩

/-- One receive of a wait, as an advance of its worker. -/
theorem receive_cases {worker : Worker} {task : Task} {confirmed : Bool} {wait after : Wait}
    {rest : Mailbox} {delayOver : Bool}
    (standing : worker.position = .waiting task confirmed wait)
    (received : wait.step worker.mailbox delayOver = some (after, rest)) :
    worker.Advance engine circumstances
      { worker with mailbox := rest, position := .waiting task confirmed after } := by
  cases Wait.step_cases received with
  | taking unfinished queued => exact .taking standing unfinished queued
  | stopping unfinished queued => exact .stopping standing unfinished queued
  | timingOut empty connected due => exact .timingOut standing empty connected
  | expiring empty connected => exact .expiring standing empty connected
  | losing patient empty disconnected => exact .losing standing patient empty disconnected
  | settling empty => exact .settling standing empty

/-- The end of a wait, as an advance of its worker. -/
theorem concluding_cases {worker : Worker} {task : Task} {confirmed : Bool}
    {outcome : Outcome} (standing : worker.position = .waiting task confirmed (.over outcome)) :
    worker.Advance engine circumstances
      { worker with position := .afterWait task confirmed outcome } := by
  cases outcome with
  | expired =>
      cases confirmed with
      | true => exact .confirmed standing
      | false => exact .expired standing
  | interrupted reason => exact .interrupted standing
  | stopped => exact .stopped standing

private theorem moveWorker_found {worker : Worker} {data : Engine}
    (found : data.workers[number]? = some worker) (position : Position) :
    (data.moveWorker number position).workers[number]? =
      some { worker with position := position } := by
  simp [found]

/-- What a step of a worker does to the rest of the agent.  Only a retirement touches
the slot and its lock. -/
inductive WorkerEffect (engine : Engine) (number : Nat) (circumstances : Circumstances)
    (worker : Worker) : Engine → Prop
  | own (stream : Generator) (tally : Tally) (change : Worker → Worker)
      (settled : ∀ retirement fault,
        worker.position = .retiring retirement fault → retirement = .done) :
      WorkerEffect engine number circumstances worker
        (({ engine with stream := stream, tally := tally }).changeWorker number change)
  | retiring {retirement later : Retirement} {fault : Fault} {changed : Engine}
      (standing : worker.position = .retiring retirement fault)
      (given : engine.stepRetirement (.worker number) circumstances retirement =
        some (later, changed)) :
      WorkerEffect engine number circumstances worker
        (changed.moveWorker number (.retiring later fault))

/-- A step that moves its worker and changes nothing but the stream and the counters. -/
private theorem own_cases {worker : Worker} {position : Position} (stream : Generator)
    (tally : Tally) (found : engine.workers[number]? = some worker)
    (advance : worker.Advance engine circumstances { worker with position := position })
    (settled : ∀ retirement fault,
      worker.position = .retiring retirement fault → retirement = .done) :
    ∃ later : Worker, worker.Advance engine circumstances later ∧
      (({ engine with stream := stream, tally := tally }).moveWorker number
        position).workers[number]? = some later ∧
      engine.WorkerEffect number circumstances worker
        (({ engine with stream := stream, tally := tally }).moveWorker number position) := by
  refine ⟨_, advance, ?_, .own stream tally _ settled⟩
  exact moveWorker_found found position

/-- A step of a worker is one of the cases, and the worker is still at its place. -/
theorem stepWorker_cases {worker : Worker}
    (taken : engine.stepWorker number circumstances = some (next, events))
    (found : engine.workers[number]? = some worker) :
    ∃ later : Worker, worker.Advance engine circumstances later ∧
      next.workers[number]? = some later ∧
      engine.WorkerEffect number circumstances worker next := by
  simp only [stepWorker, found] at taken
  cases standing : worker.position with
  | entering =>
      simp only [standing] at taken
      cases taken
      exact own_cases engine.stream engine.tally found (.entering standing) (by simp [standing])
  | reading =>
      simp only [standing] at taken
      cases taken
      exact own_cases engine.stream engine.tally found (.reading standing) (by simp [standing])
  | drawing seen =>
      simp only [standing, drawDelay] at taken
      by_cases unrated : engine.agent.hashrate.perSecond = 0 ∨ seen.difficulty = 0
      · rw [Discovery.drawDelay_unrated unrated] at taken
        cases taken
        exact own_cases engine.stream engine.tally found (.drawing_unrated standing unrated)
          (by simp [standing])
      · obtain ⟨hashrate, difficulty⟩ := not_or.mp unrated
        rw [Discovery.drawDelay_rated hashrate difficulty] at taken
        cases taken
        exact own_cases engine.stream.next engine.tally found (.drawing standing)
          (by simp [standing])
  | counting task =>
      simp only [standing] at taken
      cases taken
      exact own_cases engine.stream engine.tally.countIteration found (.counting standing)
        (by simp [standing])
  | waiting task confirmed wait =>
      by_cases finished : ∃ outcome, wait = .over outcome
      · obtain ⟨outcome, rfl⟩ := finished
        simp only [standing] at taken
        cases taken
        exact own_cases engine.stream engine.tally found (concluding_cases standing)
          (by simp [standing])
      · have unfinished : ∀ outcome, wait ≠ .over outcome :=
          fun outcome same => finished ⟨outcome, same⟩
        simp only [standing] at taken
        cases received : wait.step worker.mailbox circumstances.delayOver with
        | none => simp [received] at taken
        | some result =>
            obtain ⟨after, rest⟩ := result
            simp only [received] at taken
            cases taken
            refine ⟨_, receive_cases standing received, ?_,
              .own engine.stream engine.tally _ (by simp [standing])⟩
            simp [found]
  | confirming task =>
      simp only [standing] at taken
      split at taken
      · cases taken
        exact own_cases engine.stream engine.tally found (.confirming standing ‹_›)
          (by simp [standing])
      · cases taken
        exact own_cases engine.stream engine.tally found (.confirming_queued standing ‹_›)
          (by simp [standing])
  | minting task =>
      simp only [standing, mintBlock] at taken
      cases taken
      exact own_cases _ engine.tally found (.minting standing rfl rfl rfl) (by simp [standing])
  | offering block =>
      simp only [standing] at taken
      cases taken
      exact own_cases engine.stream engine.tally found (.offering standing) (by simp [standing])
  | broadcasting block =>
      simp only [standing] at taken
      split at taken
      · cases taken
      · cases taken
        exact own_cases engine.stream engine.tally found (.broadcasting standing ‹_›)
          (by simp [standing])
      · cases taken
        exact own_cases engine.stream engine.tally found (.broadcasting_rejected standing ‹_›)
          (by simp [standing])
  | crediting block =>
      simp only [standing] at taken
      cases taken
      exact own_cases engine.stream engine.tally.countBlock found (.crediting standing)
        (by simp [standing])
  | dating block =>
      simp only [standing] at taken
      cases taken
      exact own_cases engine.stream _ found (.dating standing) (by simp [standing])
  | failing reporting =>
      by_cases finished : reporting = .done
      · subst finished
        simp only [standing] at taken
        cases taken
        exact own_cases engine.stream engine.tally found (.failing_done standing)
          (by simp [standing])
      · simp only [standing] at taken
        cases taken
        obtain ⟨tally, changed⟩ := stepReporting_eq engine circumstances reporting
        rw [changed]
        exact own_cases engine.stream tally found (.failing standing finished)
          (by simp [standing])
  | retiring retirement fault =>
      by_cases finished : retirement = .done
      · subst finished
        simp only [standing] at taken
        cases taken
        exact own_cases engine.stream engine.tally found (.retiring_done standing)
          (by simp [standing])
      · simp only [standing] at taken
        cases given : engine.stepRetirement (.worker number) circumstances retirement with
        | none => simp [given] at taken
        | some result =>
            obtain ⟨after, changed⟩ := result
            simp only [given] at taken
            cases taken
            obtain ⟨mailbox, queue, kept⟩ := stepRetirement_worker given found
            exact ⟨_, .retiring standing given queue, moveWorker_found kept _,
              .retiring standing given⟩
  | dying reporting =>
      by_cases finished : reporting = .done
      · subst finished
        simp only [standing] at taken
        cases taken
        exact own_cases engine.stream engine.tally found (.dying_done standing)
          (by simp [standing])
      · simp only [standing] at taken
        cases taken
        obtain ⟨tally, changed⟩ := stepReporting_eq engine circumstances reporting
        rw [changed]
        exact own_cases engine.stream tally found (.dying standing finished)
          (by simp [standing])
  | leaving =>
      simp only [standing] at taken
      cases taken
      exact own_cases engine.stream engine.tally found (.leaving standing) (by simp [standing])
  | exited => simp [standing] at taken

theorem exists_of_stepWorker
    (taken : engine.stepWorker number circumstances = some (next, events)) :
    ∃ worker, engine.workers[number]? = some worker := by
  cases present : engine.workers[number]? with
  | none => simp [stepWorker, present] at taken
  | some worker => exact ⟨worker, rfl⟩

theorem stepWorker_effect
    (taken : engine.stepWorker number circumstances = some (next, events)) :
    ∃ worker, engine.workers[number]? = some worker ∧
      engine.WorkerEffect number circumstances worker next := by
  obtain ⟨worker, found⟩ := exists_of_stepWorker taken
  obtain ⟨_, _, _, effect⟩ := stepWorker_cases taken found
  exact ⟨worker, found, effect⟩

end Engine

end MiningAgent
