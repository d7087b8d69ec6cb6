import MiningAgent.Proofs.Run.Requests
import MiningAgent.Proofs.Run.Draws

/-!
# The provenance of a block

A block goes to the broadcaster with the context of the start behind its worker.  It is
stamped with the difficulty and the height that the worker read when it computed the delay
that has run out.
-/

namespace MiningAgent

/-- The task of a worker whose delay has run out and which has not announced. -/
def Position.past? : Position → Option Task
  | .waiting task true _ => some task
  | .confirming task => some task
  | .minting task => some task
  | _ => none

/-- A block is stamped with a reading. -/
structure Block.Stamped (block : Block) (agent : Agent) (seen : Announcement) : Prop where
  agentId : block.agentId = agent.identity.agentId
  difficulty : block.difficulty = seen.difficulty
  height : block.height = heightAbove seen.height

section Advance

variable {engine : Engine} {circumstances : Circumstances} {worker later : Worker}

theorem Worker.Advance.of_drawing {seen : Announcement}
    (advance : worker.Advance engine circumstances later)
    (standing : later.position = .drawing seen) :
    worker.position = .reading ∧ engine.tracker.current = seen := by
  cases advance with
  | reading stood =>
      cases standing
      exact ⟨stood, rfl⟩
  | _ => cases standing

theorem Worker.Advance.past? {task : Task} (advance : worker.Advance engine circumstances later)
    (given : later.position.past? = some task) :
    worker.position.past? = some task ∨
      worker.position = .waiting task false (.over .expired) := by
  cases advance with
  | expired standing =>
      cases given
      exact .inr standing
  | confirmed | confirming | confirming_queued =>
      left
      rw [‹worker.position = _›]
      exact given
  | @taking _ confirmed | @stopping _ confirmed | @timingOut _ confirmed | @expiring _ confirmed
  | @losing _ confirmed | @settling _ confirmed =>
      left
      rw [‹worker.position = _›]
      cases confirmed with
      | true => exact given
      | false => cases given
  | _ => cases given

theorem Worker.Advance.of_offering {block : Block}
    (advance : worker.Advance engine circumstances later)
    (standing : later.position = .offering block) :
    ∃ task, worker.position = .minting task ∧ block.Stamped engine.agent task.seen := by
  cases advance with
  | minting stood agentId height difficulty =>
      cases standing
      exact ⟨_, stood, agentId, difficulty, height⟩
  | _ => cases standing

end Advance

namespace Engine

/-- A worker computes the delay of an iteration: it reads the tracker, and as its next step
draws the delay for the difficulty it has read. -/
structure Computes (agent : Agent) (number : Nat) (task : Task) (reading : Moment)
    (during : History) (drawing : Moment) : Prop where
  reads : reading.position? number = some .reading
  current : reading.before.tracker.current = task.seen
  still : ∀ moment ∈ during, moment.position? number = none
  draws : drawing.position? number = some (.drawing task.seen)
  delay : Discovery.drawDelay agent.logarithm agent.hashrate.perSecond task.seen.difficulty
    drawing.before.stream = .ok (task.delay, drawing.after.stream)

/-- The last delay that a worker computed is that of a task, and it has not read the tracker
since. -/
def Computed (agent : Agent) (history : History) (number : Nat) (task : Task)
    (late : History) : Prop :=
  (∃ early reading during drawing,
      history = early ++ reading :: (during ++ drawing :: late) ∧
      Computes agent number task reading during drawing) ∧
    ∀ moment ∈ late, moment.position? number ≠ some .reading

/-- The delay that a worker computed last has run out. -/
def Expired (agent : Agent) (history : History) (number : Nat) (task : Task) : Prop :=
  ∃ late, Computed agent history number task late ∧
    ∃ moment ∈ late, moment.position? number = some (.waiting task false (.over .expired))

/-- Where what a worker carries comes from. -/
structure Traced (agent : Agent) (history : History) (number : Nat) (position : Position) :
    Prop where
  read : ∀ seen, position = .drawing seen → ∃ early reading during,
    history = early ++ reading :: during ∧ reading.position? number = some .reading ∧
    reading.before.tracker.current = seen ∧ ∀ moment ∈ during, moment.position? number = none
  computed : ∀ task, position.task? = some task → ∃ late, Computed agent history number task late
  expired : ∀ task, position.past? = some task → Expired agent history number task
  stamped : ∀ block, position = .offering block →
    ∃ task, Expired agent history number task ∧ block.Stamped agent task.seen

variable {start finish engine next : Engine} {history late : History} {moment : Moment}
  {move : Move} {number : Nat} {circumstances : Circumstances} {events : List Event}
  {agent : Agent} {task : Task} {position : Position}

theorem Computed.extend (computed : Computed agent history number task late)
    (unread : moment.position? number ≠ some .reading) :
    Computed agent (history ++ [moment]) number task (late ++ [moment]) := by
  obtain ⟨⟨early, reading, during, drawing, rfl, computes⟩, since⟩ := computed
  refine ⟨⟨early, reading, during, drawing, by simp, computes⟩, ?_⟩
  intro later member
  rcases List.mem_append.mp member with old | new
  · exact since later old
  · rw [List.mem_singleton.mp new]
    exact unread

theorem Expired.extend (expired : Expired agent history number task)
    (unread : moment.position? number ≠ some .reading) :
    Expired agent (history ++ [moment]) number task := by
  obtain ⟨late, computed, expiry, member, ended⟩ := expired
  exact ⟨late ++ [moment], computed.extend unread, expiry, List.mem_append_left _ member, ended⟩

theorem traced_entering : Traced agent history number .entering := by
  refine ⟨?_, ?_, ?_, ?_⟩
  · intro seen standing
    cases standing
  · intro task given
    cases given
  · intro task given
    cases given
  · intro block standing
    cases standing

theorem Traced.extend (traced : Traced agent history number position)
    (still : moment.position? number = none) :
    Traced agent (history ++ [moment]) number position := by
  have unread : moment.position? number ≠ some .reading := by
    rw [still]
    simp
  refine ⟨?_, ?_, ?_, ?_⟩
  · intro seen standing
    obtain ⟨early, reading, during, rfl, reads, current, none⟩ := traced.read seen standing
    refine ⟨early, reading, during ++ [moment], by simp, reads, current, ?_⟩
    intro other member
    rcases List.mem_append.mp member with old | new
    · exact none other old
    · rw [List.mem_singleton.mp new]
      exact still
  · intro task given
    obtain ⟨late, computed⟩ := traced.computed task given
    exact ⟨late ++ [moment], computed.extend unread⟩
  · intro task given
    exact (traced.expired task given).extend unread
  · intro block standing
    obtain ⟨task, expired, stamped⟩ := traced.stamped block standing
    exact ⟨task, expired.extend unread, stamped⟩

theorem Traced.stepDrawing {worker : Worker} {seen : Announcement}
    (traced : Traced engine.agent history number worker.position)
    (taken : engine.stepWorker number circumstances = some (next, events))
    (found : engine.workers[number]? = some worker) (standing : worker.position = .drawing seen)
    {later : Worker} (there : next.workers[number]? = some later)
    (given : later.position.task? = some task) :
    Computed engine.agent
      (history ++ [⟨engine, .step (.worker number) circumstances, events, next⟩]) number task
      [] := by
  obtain ⟨early, reading, during, rfl, reads, current, still⟩ := traced.read seen standing
  have draws : Moment.position? ⟨engine, .step (.worker number) circumstances, events, next⟩
      number = some (.drawing seen) := by
    rw [← standing]
    exact Moment.position?_of_step rfl found
  rcases stepWorker_drawing taken found standing with ⟨delay, drawn, after⟩ | ⟨fault, after⟩
  · have counting : later.position = .counting ⟨seen, delay⟩ := by
      simp [after, found] at there
      rw [← there]
    rw [counting] at given
    cases given
    refine ⟨⟨early, reading, during, _, by simp, reads, current, still, draws, ?_⟩, by simp⟩
    rw [drawn, after]
    rfl
  · have retiring : later.position = .retiring (.locking worker.generation) fault := by
      simp [after, found] at there
      rw [← there]
    rw [retiring] at given
    cases given

theorem Traced.stepWorker {worker later : Worker}
    (traced : Traced engine.agent history number worker.position)
    (taken : engine.stepWorker number circumstances = some (next, events))
    (found : engine.workers[number]? = some worker) (there : next.workers[number]? = some later) :
    Traced engine.agent
      (history ++ [⟨engine, .step (.worker number) circumstances, events, next⟩]) number
      later.position := by
  obtain ⟨after, advance, present, _⟩ := stepWorker_cases taken found
  cases Option.some.inj (present.symm.trans there)
  have own : Moment.position? ⟨engine, .step (.worker number) circumstances, events, next⟩
      number = some worker.position := Moment.position?_of_step rfl found
  have unread (busy : worker.position ≠ .reading) :
      Moment.position? ⟨engine, .step (.worker number) circumstances, events, next⟩ number ≠
        some .reading := by
    rw [own]
    simpa using busy
  refine ⟨?_, ?_, ?_, ?_⟩
  · intro seen standing
    obtain ⟨reads, current⟩ := advance.of_drawing standing
    refine ⟨history, _, [], rfl, ?_, current, by simp⟩
    rw [own, reads]
  · intro task given
    by_cases drawing : ∃ seen, worker.position = .drawing seen
    · obtain ⟨seen, standing⟩ := drawing
      exact ⟨[], traced.stepDrawing taken found standing there given⟩
    · have carries := advance.task? (fun seen same => drawing ⟨seen, same⟩) given
      obtain ⟨late, computed⟩ := traced.computed task carries
      refine ⟨_, computed.extend (unread ?_)⟩
      intro reads
      rw [reads] at carries
      cases carries
  · intro task given
    rcases advance.past? given with carries | ended
    · apply (traced.expired task carries).extend (unread ?_)
      intro reads
      rw [reads] at carries
      cases carries
    · obtain ⟨late, computed⟩ := traced.computed task (by rw [ended]; rfl)
      refine ⟨_, computed.extend (unread (by simp [ended])), _, List.mem_append_right _
        (List.mem_singleton_self _), ?_⟩
      rw [own, ended]
  · intro block standing
    obtain ⟨task, minting, stamped⟩ := advance.of_offering standing
    refine ⟨task, (traced.expired task ?_).extend (unread (by simp [minting])), stamped⟩
    rw [minting]
    rfl

/-- What a worker carries can be traced at any time. -/
theorem Reaches.traced (reached : start.Reaches history finish) (none : start.workers = []) :
    ∀ (number : Nat) worker, finish.workers[number]? = some worker →
      Traced start.agent history number worker.position := by
  induction reached with
  | refl =>
      intro number worker found
      rw [none] at found
      cases found
  | @move history engine next move events reached made inductionHypothesis =>
      intro number later there
      cases found : engine.workers[number]? with
      | none =>
          obtain ⟨_, _, _, _, _, _, rfl⟩ := move?_newcomer made found there
          exact traced_entering
      | some worker =>
          have traced := inductionHypothesis number worker found
          obtain ⟨after, present, ⟨circumstances, rfl, _⟩ | ⟨others, touched⟩⟩ :=
            move?_worker made found
          · rw [← reached.agent] at traced ⊢
            exact traced.stepWorker made found there
          · cases Option.some.inj (present.symm.trans there)
            rw [touched.position]
            exact traced.extend (Moment.position?_of_other others)

/-- Only a worker that is about to hand over a block calls the broadcaster. -/
theorem move?_offered {context : Context} {block : Block}
    (made : engine.move? move = some (next, events)) (offers : .offered context block ∈ events) :
    ∃ number worker, engine.workers[number]? = some worker ∧ worker.context = context ∧
      Moment.position? ⟨engine, move, events, next⟩ number = some (.offering block) := by
  cases move?_cases made with
  | call idle | setReportPath => cases offers
  | failSpawn standing vacant => simp at offers
  | caller taken => cases (stepCaller_quiet taken).silent _ offers
  | @worker number circumstances _ _ taken =>
      obtain ⟨worker, found⟩ := exists_of_stepWorker taken
      obtain ⟨same, standing⟩ := (stepWorker_leaves taken found).offers context block offers
      refine ⟨number, worker, found, same.symm, ?_⟩
      rw [← standing]
      exact Moment.position?_of_step rfl found

/-- Whenever the broadcaster is called, the context is that of the start which spawned the
worker, and the result of that start is that it has started a run.  The block has the agent's
number.  Its difficulty and its height are those that the tracker had at one moment, when the
worker read it to compute the delay that has run out. -/
theorem broadcasts_have_provenance {stream : Generator} {tracker : Tracker} {tally : Tally}
    {path : Option String} {before after : History} {calling : Moment} {context : Context}
    {block : Block}
    (reached : (created agent stream tracker tally path).Reaches (before ++ calling :: after) finish)
    (offers : .offered context block ∈ calling.events) :
    ∃ number worker caller late task,
      calling.before.workers[number]? = some worker ∧
      calling.position? number = some (.offering block) ∧ worker.context = context ∧
      Spawned before number worker caller late ∧
      ReturnsStarted caller (late ++ calling :: after) finish ∧
      Expired agent before number task ∧ block.agentId = agent.identity.agentId ∧
      block.difficulty = task.seen.difficulty ∧
      block.height.toNat = min (task.seen.height.toNat + 1) 18446744073709551615 := by
  obtain ⟨earlier, made, _⟩ := reached.cut
  obtain ⟨number, worker, found, same, offering⟩ := move?_offered made offers
  obtain ⟨caller, late, spawned⟩ := earlier.spawned (fun _ => rfl) rfl number worker found
  have returns : ReturnsStarted caller (late ++ calling :: after) finish := by
    obtain ⟨first, spawning, split, _, _, fills⟩ := spawned
    rw [split, List.append_assoc, List.cons_append] at reached
    obtain ⟨_, _, rest⟩ := reached.cut
    apply rest.returnsStarted
    rw [fills]
    rfl
  obtain ⟨_, standing⟩ := Moment.exists_of_position? offering
  obtain ⟨present, _, there, stands⟩ := standing
  cases Option.some.inj (found.symm.trans there)
  have traced := earlier.traced rfl number worker found
  obtain ⟨task, expired, stamped⟩ := traced.stamped block stands
  refine ⟨number, worker, caller, late, task, found, offering, same, spawned, returns, expired,
    stamped.agentId, stamped.difficulty, ?_⟩
  rw [stamped.height, heightAbove_toNat]

/-- While a worker mines another start finds it active.  A peer block is accepted between the
worker's last look at its queue and its call of the broadcaster. -/
def beforeHandover : List Move :=
  .call 0 (.start (.ofWallet "")) :: steps (.caller 0) 7 ++
    .call 2 (.start (.ofWallet "another")) :: steps (.caller 2) 6 ++ steps (.worker 0) 8 ++
    .call 1 (.peerBlock ⟨7, 3⟩) :: steps (.caller 1) 5 ++ steps (.worker 0) 1

def handover : Moment := (small.record beforeHandover).2.momentOf (.step (.worker 0) calm)

theorem provenance_at_handover :
    handover.before.tracker.current = ⟨7, 3⟩ ∧
      ∃ block number worker caller late task,
        handover.events = [.offered (.ofWallet "") block] ∧ worker.context = .ofWallet "" ∧
        Spawned (small.record beforeHandover).1 number worker caller late ∧
        ReturnsStarted caller (late ++ [handover]) handover.after ∧
        Expired small.agent (small.record beforeHandover).1 number task ∧
        task.seen.difficulty = 1 ∧ block.height.toNat = 1 := by
  have handed : (small.record beforeHandover).2.Reaches [handover] handover.after :=
    reaches_momentOf (by decide)
  have reached : small.Reaches ((small.record beforeHandover).1 ++ handover :: [])
      handover.after := (reaches_record beforeHandover).append handed
  have shown : ∃ block, handover.events = [.offered (.ofWallet "") block] ∧
      block.difficulty = 1 ∧ block.height = 1 := ⟨_, rfl, rfl, rfl⟩
  obtain ⟨block, events, stamped, height⟩ := shown
  have offers : .offered (.ofWallet "") block ∈ handover.events := by
    rw [events]
    exact List.mem_singleton_self _
  obtain ⟨number, worker, caller, late, task, _, _, context, spawned, returns, expired, _,
    difficulty, _⟩ := broadcasts_have_provenance reached offers
  rw [stamped] at difficulty
  exact ⟨by decide, block, number, worker, caller, late, task, events, context, spawned, returns,
    expired, difficulty.symm, by rw [height]; rfl⟩

end Engine

end MiningAgent
