import MiningAgent.Proofs.Run.LastSteps

/-!
# A stop comes to its end

A stop that waits for a worker to exit holds nothing that the worker needs, and the worker
has a bounded number of steps left.
-/

namespace MiningAgent.Engine

def Moment.stands (moment : Moment) (number : Nat) (point : Position → Bool) : Bool :=
  (moment.position? number).any point

def Moment.expires (moment : Moment) (number : Nat) : Bool :=
  match moment.position? number, (moment.after.workers[number]?).map Worker.position with
  | some (.waiting _ _ .timedOut), some (.waiting _ _ (.over .expired)) => true
  | _, _ => false

/-- A stop waits for its worker and does not hold it up: once the broadcaster has
answered, the worker can make its next step, or it wants the slot lock, and somebody else
has that lock and can. -/
structure Awaits (engine : Engine) (caller : Nat) (run : Run) : Prop where
  joining : engine.callers caller = .stopJoining run
  lifecycle : engine.lifecycleHolder = some caller
  slot : engine.slotHolder ≠ some (.caller caller)
  enabled : ∀ circumstances : Circumstances, circumstances.answer.isSome = true →
    (engine.step (.worker run.worker) circumstances).isSome = true ∨
      ∃ worker generation fault holder, engine.workers[run.worker]? = some worker ∧
        worker.position = .retiring (.locking generation) fault ∧
        engine.slotHolder = some holder ∧ holder ≠ .caller caller ∧
        (engine.step holder circumstances).isSome = true

/-- What is left of the run of a worker when a stop is sent to it. -/
structure WindsDown (worker : Worker) (number : Nat) (after : History) : Prop where
  offers : after.countP (fun moment => moment.stands number Position.isOffering) ≤
    worker.position.announces.toNat
  draws : after.countP (fun moment => moment.stands number Position.isDrawing) ≤ 1
  counts : after.countP (fun moment => moment.stands number Position.isCounting) ≤ 1
  unexpired : ∀ moment ∈ after, moment.expires number = false
  steps : after.countP (fun moment => moment.stands number fun _ => true) ≤
    worker.mailbox.queue.length + 33

variable {start engine next finish : Engine} {history : History} {move : Move} {number : Nat}
  {circumstances : Circumstances} {events : List Event}

/-- What every step takes from what is left bounds how often a doomed worker makes it. -/
theorem Reaches.spends (point : Position → Bool) (left : Worker → Nat)
    (advanced : ∀ {engine : Engine} {circumstances : Circumstances} {worker later : Worker},
      worker.Doomed → worker.Advance engine circumstances later →
      left later + (point worker.position).toNat ≤ left worker)
    (touched : ∀ {worker later : Worker},
      worker.Doomed → worker.Touched later → left later ≤ left worker)
    (reached : start.Reaches history finish) {worker : Worker}
    (found : start.workers[number]? = some worker) (doomed : worker.Doomed) :
    ∃ later, finish.workers[number]? = some later ∧ later.Doomed ∧
      history.countP (fun moment => moment.stands number point) + left later ≤
        left worker := by
  induction reached with
  | refl => exact ⟨worker, found, doomed, by simp⟩
  | @move history engine next move events reached made inductionHypothesis =>
      obtain ⟨middle, present, doomedThere, spent⟩ := inductionHypothesis
      obtain ⟨later, there, step⟩ := move?_worker made present
      rw [List.countP_append, List.countP_singleton]
      rcases step with ⟨circumstances, own, advance⟩ | ⟨others, touch⟩
      · have position := @Moment.position?_of_step ⟨engine, move, events, next⟩ number middle
          circumstances own present
        have stands : Moment.stands ⟨engine, move, events, next⟩ number point =
            point middle.position := by simp [Moment.stands, position]
        have now := advanced doomedThere advance
        refine ⟨later, there, advance.doomed doomedThere, ?_⟩
        rw [stands]
        cases here : point middle.position with
        | true =>
            rw [here, Bool.toNat_true] at now
            rw [if_pos rfl]
            omega
        | false =>
            rw [here, Bool.toNat_false] at now
            rw [if_neg Bool.false_ne_true]
            omega
      · have position := @Moment.position?_of_other ⟨engine, move, events, next⟩ number others
        have stands : Moment.stands ⟨engine, move, events, next⟩ number point = false := by
          simp [Moment.stands, position]
        have now := touched doomedThere touch
        refine ⟨later, there, touch.doomed doomedThere, ?_⟩
        rw [stands, if_neg Bool.false_ne_true]
        omega

theorem Moment.expires_eq_false {moment : Moment} {worker : Worker}
    (made : moment.before.move? moment.move = some (moment.after, moment.events))
    (found : moment.before.workers[number]? = some worker) (doomed : worker.Doomed) :
    moment.expires number = false := by
  obtain ⟨later, there, step⟩ := move?_worker made found
  unfold Moment.expires
  split
  · rename_i task confirmed other again stands after
    exfalso
    obtain ⟨circumstances, before, own, present, standing⟩ :=
      Moment.exists_of_position? stands
    cases Option.some.inj (present.symm.trans found)
    rw [there] at after
    rcases step with ⟨_, _, advance⟩ | ⟨others, _⟩
    · exact advance.unexpired doomed standing other again (Option.some.inj after)
    · exact others circumstances own
  · rfl

theorem Reaches.sane {agent : Agent} {stream : Generator} {tracker : Tracker}
    {tally : Tally} {path : Option String}
    (reached : (created agent stream tracker tally path).Reaches history engine) :
    ∀ (number : Nat) worker, engine.workers[number]? = some worker →
      worker.position.sane = true := by
  refine reached.keeps_workers ?_ ?_ ?_ ?_
  · intro generation context
    rfl
  · intro engine circumstances worker later sane advance
    exact advance.sane sane
  · intro worker later sane touched
    rw [touched.position]
    exact sane
  · intro number worker found
    simp [created] at found

/-- A stop that is about to send finds its worker, and leaves it with a stop in its queue
or gone. -/
theorem doomed_of_sending {caller : Nat} {run : Run} {worker : Worker}
    (standing : engine.callers caller = .stopSending run)
    (taken : engine.stepCaller caller circumstances = some (next, events))
    (found : engine.workers[run.worker]? = some worker) (coherent : worker.Coherent)
    (sane : worker.position.sane = true) :
    ∃ later, next.workers[run.worker]? = some later ∧ later.Doomed ∧
      later.position = worker.position ∧
      later.stepsLeft ≤ worker.mailbox.queue.length + 33 := by
  have near := worker.position.distance_le
  simp only [stepCaller, standing] at taken
  cases taken
  simp only [setCaller_workers, send]
  by_cases present : worker.position = .exited
  · have gone : engine.receives run.worker = false := by simp [receives, found, present]
    rw [gone, if_neg Bool.false_ne_true]
    refine ⟨worker, found, ⟨coherent, sane, ?_⟩, rfl, ?_⟩
    · intro working
      rw [present] at working
      cases working
    · simp [Worker.stepsLeft, Worker.ahead, present, Position.distance, Position.working]
  · have here : engine.receives run.worker = true := by simp [receives, found, present]
    rw [if_pos here]
    have touched : worker.Touched { worker with mailbox := worker.mailbox.send .stop } :=
      ⟨rfl, rfl, rfl, [.stop], rfl⟩
    refine ⟨{ worker with mailbox := worker.mailbox.send .stop }, by simp [found],
      ⟨touched.coherent coherent, sane, ?_⟩, rfl, ?_⟩
    · intro _
      exact List.mem_append_right _ (List.mem_singleton.mpr rfl)
    · have ahead : ({ worker with mailbox := worker.mailbox.send .stop } : Worker).ahead ≤
          worker.mailbox.queue.length := by
        unfold Worker.ahead Mailbox.send
        split
        · simp only [List.idxOf_append]
          split
          · exact List.idxOf_le_length
          · simp
        · exact Nat.zero_le _
      change worker.position.distance + _ ≤ _
      omega

theorem Sound.worker_of_sending {caller : Nat} {run : Run} (sound : engine.Sound)
    (standing : engine.callers caller = .stopSending run) :
    ∃ worker, engine.workers[run.worker]? = some worker := by
  have charged : engine.inCharge = some run.worker := by
    rw [inCharge, sound.hand_eq standing rfl]
    rfl
  exact ⟨_, List.getElem?_eq_getElem (sound.present _ charged)⟩

/-- A stop waits until its worker has exited, and no longer. -/
theorem Reaches.joins {caller : Nat} {run : Run} {worker : Worker}
    (reached : start.Reaches history finish)
    (found : start.workers[run.worker]? = some worker)
    (standing : start.callers caller = .stopJoining run) :
    ∃ later, finish.workers[run.worker]? = some later ∧
      (finish.callers caller = .stopJoining run ∨ later.position = .exited) := by
  induction reached with
  | refl => exact ⟨worker, found, .inl standing⟩
  | @move history engine next move events reached made inductionHypothesis =>
      obtain ⟨middle, present, waits⟩ := inductionHypothesis
      obtain ⟨later, there, _⟩ := move?_worker made present
      refine ⟨later, there, ?_⟩
      rcases waits with joining | exited
      · rcases stopJoining_kept joining made with still | ⟨gone, _⟩
        · exact .inl still
        · exact .inr (move?_exited made present there (position_of_gone gone present))
      · exact .inr (move?_exited made present there exited)

/-- A worker with a stop in its queue is blocked only in the broadcaster, or by the slot
lock that it wants in order to give up its run. -/
theorem stepWorker_enabled {worker : Worker}
    (found : engine.workers[number]? = some worker) (doomed : worker.Doomed)
    (present : worker.position ≠ .exited) (answered : circumstances.answer.isSome = true)
    (free : ∀ generation fault, worker.position = .retiring (.locking generation) fault →
      engine.slotHolder = none) :
    (engine.stepWorker number circumstances).isSome = true := by
  cases standing : worker.position with
  | waiting task confirmed wait =>
      have takes (working : worker.position.working = true) :
          ∃ signal rest, worker.mailbox.queue = signal :: rest :=
        List.exists_cons_of_ne_nil (doomed.queue_ne_nil working)
      cases wait with
      | listening | timedOut | draining last =>
          obtain ⟨signal, rest, queued⟩ := takes (by rw [standing]; rfl)
          simp [stepWorker, found, standing, Wait.step, queued]
      | _ => simp [stepWorker, found, standing]
  | confirming task =>
      simp only [stepWorker, found, standing]
      split <;> rfl
  | broadcasting block =>
      obtain ⟨answer, given⟩ := Option.isSome_iff_exists.mp answered
      cases answer <;> simp [stepWorker, found, standing, given]
  | failing reporting => cases reporting <;> simp [stepWorker, found, standing]
  | dying reporting => cases reporting <;> simp [stepWorker, found, standing]
  | retiring retirement fault =>
      cases retirement with
      | locking generation =>
          have unheld := free generation fault standing
          simp [stepWorker, found, standing, stepRetirement, unheld]
      | done => simp [stepWorker, found, standing]
      | claiming generation | accounting run | unlocking =>
          refine stepWorker_of_holdsSlot ⟨worker, found, ?_⟩ circumstances
          rw [standing]
          rfl
  | exited => exact absurd standing present
  | _ => simp [stepWorker, found, standing]

theorem Locked.awaits {caller : Nat} {run : Run} {worker : Worker} (locked : engine.Locked)
    (joining : engine.callers caller = .stopJoining run)
    (found : engine.workers[run.worker]? = some worker) (doomed : worker.Doomed)
    (present : worker.position ≠ .exited) : engine.Awaits caller run := by
  have slot : engine.slotHolder ≠ some (.caller caller) := by
    intro held
    have holds : (engine.callers caller).holdsSlot = true := (locked.slot _).mp held
    rw [joining] at holds
    cases holds
  refine ⟨joining, (locked.lifecycle caller).mpr (by rw [joining]; rfl), slot, ?_⟩
  intro circumstances answered
  by_cases wants : ∃ generation fault, worker.position = .retiring (.locking generation) fault
  · obtain ⟨generation, fault, standing⟩ := wants
    cases held : engine.slotHolder with
    | none =>
        exact .inl (stepWorker_enabled found doomed present answered fun _ _ _ => held)
    | some holder =>
        right
        refine ⟨worker, generation, fault, holder, found, standing, rfl, ?_,
          locked.holder_steps held circumstances⟩
        rintro rfl
        exact slot held
  · left
    refine stepWorker_enabled found doomed present answered ?_
    intro generation fault standing
    exact absurd ⟨generation, fault, standing⟩ wants

theorem Moment.joining_of_sending {sending : Moment} {caller : Nat} {run : Run}
    (own : sending.move = .step (.caller caller) circumstances)
    (standing : sending.before.callers caller = .stopSending run)
    (sent : sending.before.move? sending.move = some (sending.after, sending.events)) :
    sending.after.callers caller = .stopJoining run := by
  rw [own] at sent
  have taken : sending.before.stepCaller caller circumstances =
      some (sending.after, sending.events) := sent
  simp only [stepCaller, standing] at taken
  obtain ⟨same, _⟩ := Prod.mk.inj (Option.some.inj taken)
  rw [← same]
  exact setCaller_self _ _ _

theorem Reaches.windsDown {worker asked : Worker} (reached : start.Reaches history finish)
    (found : start.workers[number]? = some asked) (doomed : asked.Doomed)
    (position : asked.position = worker.position)
    (bound : asked.stepsLeft ≤ worker.mailbox.queue.length + 33) :
    WindsDown worker number history := by
  obtain ⟨_, _, _, offers⟩ := reached.spends Position.isOffering
    (fun worker => worker.position.announces.toNat)
    (fun doomed advance => advance.offers_left doomed)
    (fun _ touched => Nat.le_of_eq (by rw [touched.position])) found doomed
  obtain ⟨_, _, _, draws⟩ := reached.spends Position.isDrawing
    (fun worker => worker.position.draws.toNat)
    (fun doomed advance => advance.draws_left doomed)
    (fun _ touched => Nat.le_of_eq (by rw [touched.position])) found doomed
  obtain ⟨_, _, _, counts⟩ := reached.spends Position.isCounting
    (fun worker => worker.position.counts.toNat)
    (fun doomed advance => advance.counts_left doomed)
    (fun _ touched => Nat.le_of_eq (by rw [touched.position])) found doomed
  obtain ⟨_, _, _, steps⟩ := reached.spends (fun _ => true) Worker.stepsLeft
    (fun doomed advance => advance.stepsLeft doomed)
    (fun doomed touched => Nat.le_of_eq (touched.stepsLeft doomed)) found doomed
  have oneDraw := Bool.toNat_le asked.position.draws
  have oneCount := Bool.toNat_le asked.position.counts
  rw [position] at offers
  refine ⟨by omega, by omega, by omega, ?_, by omega⟩
  intro moment member
  obtain ⟨early, late, rfl⟩ := List.append_of_mem member
  obtain ⟨toMoment, made, _⟩ := reached.cut
  obtain ⟨present, there, doomedThere, _⟩ := toMoment.spends (fun _ => true) Worker.stepsLeft
    (fun doomed advance => advance.stepsLeft doomed)
    (fun doomed touched => Nat.le_of_eq (touched.stepsLeft doomed)) found doomed
  exact Moment.expires_eq_false made there doomedThere

/-- Once a stop is sent, its worker calls the broadcaster at most once more, and not at all
unless it was past its last look at the queue.  It starts at most one more iteration, no
wait of it comes to the end of its delay, and it exits after a bounded number of steps.
Until then the stop waits for it and holds nothing that it needs. -/
theorem stop_bounded_without_deadlock {agent : Agent} {stream : Generator}
    {tracker : Tracker} {tally : Tally} {path : Option String} {before after : History}
    {sending : Moment} {finish : Engine} {caller : Nat} {circumstances : Circumstances}
    {run : Run}
    (reached : (created agent stream tracker tally path).Reaches
      (before ++ sending :: after) finish)
    (own : sending.move = .step (.caller caller) circumstances)
    (standing : sending.before.callers caller = .stopSending run) :
    ∃ worker later, sending.before.workers[run.worker]? = some worker ∧
      finish.workers[run.worker]? = some later ∧ WindsDown worker run.worker after ∧
      (later.position ≠ .exited → finish.Awaits caller run ∧
        after.countP (fun moment => moment.stands run.worker fun _ => true) <
          worker.mailbox.queue.length + 33) ∧
      (later.position = .exited → finish.callers caller = .stopJoining run →
        ∀ circumstances, (finish.step (.caller caller) circumstances).isSome = true) := by
  obtain ⟨toSending, sent, fromSending⟩ := reached.cut
  have sound := toSending.sound (sound_created agent stream tracker tally path)
  obtain ⟨worker, found⟩ := sound.worker_of_sending standing
  have joining := Moment.joining_of_sending own standing sent
  have locked := (fromSending.sound (sound.kept sent)).locked
  rw [own] at sent
  obtain ⟨asked, there, doomed, position, bound⟩ := doomed_of_sending standing sent found
    (toSending.coherent _ worker found) (toSending.sane _ worker found)
  obtain ⟨later, present, waits⟩ := fromSending.joins there joining
  obtain ⟨last, same, doomedLast, spent⟩ := fromSending.spends (fun _ => true)
    Worker.stepsLeft (fun doomed advance => advance.stepsLeft doomed)
    (fun doomed touched => Nat.le_of_eq (touched.stepsLeft doomed)) there doomed
  cases Option.some.inj (same.symm.trans present)
  refine ⟨worker, later, found, present,
    fromSending.windsDown there doomed position bound, ?_, ?_⟩
  · intro alive
    have remaining := Worker.stepsLeft_pos alive
    refine ⟨?_, by omega⟩
    rcases waits with stays | exited
    · exact locked.awaits stays present doomedLast alive
    · exact absurd exited alive
  · intro exited stays circumstances
    have gone : finish.receives run.worker = false := by simp [receives, present, exited]
    simp [step, stepCaller, stays, gone]

/-- A worker waits with an interrupt in its queue when a stop takes its run. -/
def beforeStop : List Move :=
  .call 0 (.start (.ofWallet "")) :: steps (.caller 0) 7 ++ steps (.worker 0) 4 ++
    .call 2 (.interrupt .peerBlock) :: steps (.caller 2) 3 ++ .call 1 .stop ::
    steps (.caller 1) 4

def stopSent : Moment := (small.record beforeStop).2.momentOf (.step (.caller 1) calm)

/-- The worker has taken the interrupt and the stop, and is on its way out. -/
theorem awaits_after_stopSent :
    (stopSent.after.record (steps (.worker 0) 2)).2.Awaits 1 ⟨1, 0, ⟨0, 0⟩⟩ := by
  have sent : (small.record beforeStop).2.Reaches [stopSent] stopSent.after :=
    reaches_momentOf (by decide)
  have reached : small.Reaches ((small.record beforeStop).1 ++ stopSent ::
      (stopSent.after.record (steps (.worker 0) 2)).1)
      (stopSent.after.record (steps (.worker 0) 2)).2 :=
    (reaches_record _).append (sent.append (reaches_record _))
  have own : stopSent.move = .step (.caller 1) calm := rfl
  have standing : stopSent.before.callers 1 = .stopSending ⟨1, 0, ⟨0, 0⟩⟩ := by decide
  obtain ⟨_, later, _, present, _, awaits, _⟩ :=
    stop_bounded_without_deadlock reached own standing
  have alive : later.position ≠ .exited := by
    have position : ((stopSent.after.record (steps (.worker 0) 2)).2.workers[0]?).map
        Worker.position ≠ some .exited := by decide
    intro exited
    apply position
    rw [present, Option.map_some, exited]
  exact (awaits alive).1

end MiningAgent.Engine
