import MiningAgent.Proofs.Run.Charge

/-!
# Workers that do not fail

As long as the tracker is changed by updates only its difficulty is never zero, and a
start looks at the hashrate before it spawns.  So no draw fails, and a worker leaves its
loop only for the stop that waits to join it.
-/

namespace MiningAgent

/-- Whether a worker has met no fault that ends its run, and has none ahead in the draw
that it is about to make. -/
def Position.faultless : Position → Bool
  | .drawing seen => seen.difficulty != 0
  | .retiring _ _ => false
  | .dying _ => false
  | _ => true

/-- Whether a start has found that there is a hashrate. -/
def Activity.checked : Activity → Bool
  | .startClaiming _ => true
  | .startDeciding _ => true
  | _ => false

/-- Whether a start has put a run in the slot, or found one there. -/
def Activity.fills : Activity → Bool
  | .startReleasing .started => true
  | .startReleasing .alreadyActive => true
  | .leaving .started => true
  | .leaving .alreadyActive => true
  | _ => false

theorem Activity.holdsLifecycle_of_fills {activity : Activity}
    (fills : activity.fills = true) : activity.holdsLifecycle = true := by
  unfold Activity.fills at fills
  split at fills
  all_goals first | rfl | cases fills

/-- A worker that nobody has asked to stop. -/
structure Worker.Unstopped (worker : Worker) : Prop where
  connected : worker.mailbox.connected = true
  unasked : Signal.stop ∉ worker.mailbox.queue
  working : worker.position.working = true

/-- What a caller other than a stop can do to a worker. -/
inductive Worker.Nudged (worker : Worker) : Worker → Prop
  | same : Nudged worker worker
  | interrupted (reason : Interruption) :
      Nudged worker { worker with mailbox := worker.mailbox.send (.interrupt reason) }

theorem Worker.Nudged.unstopped {worker later : Worker} (nudged : worker.Nudged later)
    (unstopped : worker.Unstopped) : later.Unstopped := by
  cases nudged with
  | same => exact unstopped
  | interrupted reason =>
      refine ⟨unstopped.connected, ?_, unstopped.working⟩
      intro member
      rcases List.mem_append.mp member with old | new
      · exact unstopped.unasked old
      · cases List.mem_singleton.mp new

section Advance

variable {engine : Engine} {circumstances : Circumstances} {worker later : Worker}

theorem Worker.Advance.faultless (advance : worker.Advance engine circumstances later)
    (rated : engine.agent.hashrate.perSecond ≠ 0)
    (difficulty : engine.tracker.current.difficulty ≠ 0)
    (faultless : worker.position.faultless = true) : later.position.faultless = true := by
  cases advance with
  | reading standing => simpa [Position.faultless] using difficulty
  | drawing_unrated standing unrated =>
      rw [standing] at faultless
      rcases unrated with noRate | noDifficulty
      · exact absurd noRate rated
      · simp [Position.faultless, noDifficulty] at faultless
  | retiring standing given queue =>
      rw [standing] at faultless
      cases faultless
  | retiring_done standing | dying standing unfinished =>
      rw [standing] at faultless
      cases faultless
  | _ => rfl

theorem Worker.Advance.unstopped (advance : worker.Advance engine circumstances later)
    (unstopped : worker.Unstopped) (faultless : later.position.faultless = true) :
    later.Unstopped := by
  obtain ⟨connected, unasked, working⟩ := unstopped
  cases advance with
  | drawing_unrated standing unrated => cases faultless
  | taking standing unfinished queued =>
      rw [queued] at unasked
      refine ⟨connected, ?_, rfl⟩
      intro member
      exact unasked (List.mem_cons_of_mem _ member)
  | stopping standing unfinished queued =>
      rw [queued] at unasked
      exact absurd List.mem_cons_self unasked
  | losing standing patient empty disconnected =>
      rw [disconnected] at connected
      cases connected
  | retiring standing given queue => cases faultless
  | retiring_done standing | dying standing unfinished => cases faultless
  | stopped standing | dying_done standing | leaving standing =>
      rw [standing] at working
      cases working
  | _ => exact ⟨connected, unasked, rfl⟩

end Advance

namespace Engine

/-- Whether a stop waits for a worker to exit. -/
def Joined (engine : Engine) (number : Nat) : Prop :=
  ∃ caller run, engine.callers caller = .stopJoining run ∧ run.worker = number

/-- What holds if no delay can fail: a worker that is not at work has exited, or is on its
way out under the eyes of the stop that joins it. -/
structure Tended (engine : Engine) : Prop where
  sound : engine.Sound
  difficulty : engine.tracker.current.difficulty ≠ 0
  checked : ∀ caller, (engine.callers caller).checked = true →
    engine.agent.hashrate.perSecond ≠ 0
  rated : ∀ (number : Nat) worker, engine.workers[number]? = some worker →
    engine.agent.hashrate.perSecond ≠ 0
  faultless : ∀ (number : Nat) worker, engine.workers[number]? = some worker →
    worker.position.faultless = true
  filled : ∀ caller, (engine.callers caller).fills = true → engine.slot.active ≠ none
  attended : ∀ (number : Nat) worker, engine.workers[number]? = some worker →
    worker.Unstopped ∨ engine.Joined number ∨
      (worker.position = .exited ∧ engine.inCharge ≠ some number)

variable {engine next : Engine} {move : Move} {number : Nat} {circumstances : Circumstances}
  {events : List Event}

theorem tended_created (agent : Agent) (stream : Generator) (tally : Tally)
    (path : Option String) : (created agent stream .initial tally path).Tended where
  sound := sound_created agent stream .initial tally path
  difficulty := by
    change Tracker.initial.current.difficulty ≠ 0
    decide
  checked := by
    intro caller checked
    cases checked
  rated := by
    intro number worker found
    simp [created] at found
  faultless := by
    intro number worker found
    simp [created] at found
  filled := by
    intro caller fills
    cases fills
  attended := by
    intro number worker found
    simp [created] at found

/-- What the steps of callers do to a worker: they nudge it, or a stop begins to wait for
it. -/
theorem Sound.stepCaller_nudges {worker : Worker} (sound : engine.Sound)
    {caller : Nat} (taken : engine.stepCaller caller circumstances = some (next, events))
    (found : engine.workers[number]? = some worker) :
    ∃ later, next.workers[number]? = some later ∧ later.position = worker.position ∧
      (worker.Nudged later ∨ next.Joined number) := by
  cases stepCaller_cases taken with
  | startDeciding standing vacant =>
      have inside : number < engine.workers.length := (List.getElem?_eq_some_iff.mp found).1
      refine ⟨worker, ?_, rfl, .inl .same⟩
      simp only [setCaller_workers, spawn, List.getElem?_append_left inside, found]
  | stopSending standing =>
      rename_i run
      rcases send_cases run.worker .stop found with same | ⟨target, sent⟩
      · exact ⟨worker, same, rfl, .inl .same⟩
      · exact ⟨_, sent, rfl, .inr ⟨caller, run, setCaller_self _ _ _, target⟩⟩
  | interruptSending standing active present =>
      rename_i reason notified run
      rcases send_cases run.worker (.interrupt reason) found with same | ⟨_, sent⟩
      · exact ⟨worker, same, rfl, .inl .same⟩
      · exact ⟨_, sent, rfl, .inl (.interrupted reason)⟩
  | retiring standing given => exact (sound.not_retiring standing).elim
  | startRefusing standing unfinished | reporting standing unfinished =>
      exact ⟨worker, by simpa using found, rfl, .inl .same⟩
  | _ => exact ⟨worker, found, rfl, .inl .same⟩

/-- A step of another worker leaves a worker alone, unless it retires. -/
theorem stepWorker_alone {stepping : Nat} {worker : Worker} (other : stepping ≠ number)
    (taken : engine.stepWorker stepping circumstances = some (next, events))
    (faultless : ∀ worker, engine.workers[stepping]? = some worker →
      worker.position.faultless = true)
    (found : engine.workers[number]? = some worker) : next.workers[number]? = some worker := by
  obtain ⟨acting, present, effect⟩ := stepWorker_effect taken
  cases effect with
  | own stream tally change settled => simpa [other] using found
  | retiring standing given =>
      have sane := faultless acting present
      rw [standing] at sane
      cases sane

/-- A move advances the worker whose step it is.  Every other is nudged, or a stop begins
to wait for it. -/
theorem Tended.move?_worker {worker : Worker} (tended : engine.Tended)
    (made : engine.move? move = some (next, events))
    (found : engine.workers[number]? = some worker) :
    ∃ later, next.workers[number]? = some later ∧
      ((∃ circumstances, worker.Advance engine circumstances later) ∨
        later.position = worker.position ∧ (worker.Nudged later ∨ next.Joined number)) := by
  cases move?_cases made with
  | call idle | failSpawn standing vacant | setReportPath =>
      exact ⟨worker, found, .inr ⟨rfl, .inl .same⟩⟩
  | caller taken =>
      obtain ⟨later, there, position, touched⟩ := tended.sound.stepCaller_nudges taken found
      exact ⟨later, there, .inr ⟨position, touched⟩⟩
  | worker taken =>
      rename_i stepping circumstances
      by_cases own : stepping = number
      · subst own
        obtain ⟨later, advance, there, _⟩ := stepWorker_cases taken found
        exact ⟨later, there, .inl ⟨circumstances, advance⟩⟩
      · have alone := stepWorker_alone own taken (tended.faultless stepping) found
        exact ⟨worker, alone, .inr ⟨rfl, .inl .same⟩⟩

/-- A stop waits for a worker until that worker has exited, and then nobody is in
charge. -/
theorem Sound.joined_kept (sound : engine.Sound)
    (made : engine.move? move = some (next, events)) (joined : engine.Joined number) :
    next.Joined number ∨ (engine.receives number = false ∧ next.inCharge = none) := by
  obtain ⟨waiting, run, standing, target⟩ := joined
  rcases stopJoining_kept standing made with still | ⟨gone, rfl⟩
  · exact .inl ⟨waiting, run, still, target⟩
  · right
    rw [target] at gone
    refine ⟨gone, ?_⟩
    have soundLater := sound.kept made
    have after : (engine.setCaller waiting (.stopAccounting run)).callers waiting =
        .stopAccounting run := setCaller_self _ _ _
    have empty := soundLater.vacant waiting (by rw [after]; rfl)
    rw [inCharge, soundLater.hand_eq after rfl, empty]
    rfl

theorem Tended.difficulty_kept (tended : engine.Tended)
    (made : engine.move? move = some (next, events)) :
    next.tracker.current.difficulty ≠ 0 := by
  rcases move?_tracker made with same | ⟨announcement, accepted, changed⟩
  · rw [same]
    exact tended.difficulty
  · rw [changed]
    exact (Tracker.judge_eq_accepted_iff.mp accepted).1

theorem Tended.attended_kept {worker : Worker} (tended : engine.Tended)
    (made : engine.move? move = some (next, events))
    (faultless : worker.position.faultless = true)
    (found : next.workers[number]? = some worker) :
    worker.Unstopped ∨ next.Joined number ∨
      (worker.position = .exited ∧ next.inCharge ≠ some number) := by
  cases present : engine.workers[number]? with
  | none =>
      obtain ⟨_, _, _, _, _, _, rfl⟩ := move?_newcomer made present found
      exact .inl ⟨rfl, by simp [Mailbox.fresh], rfl⟩
  | some before =>
      obtain ⟨later, there, step⟩ := tended.move?_worker made present
      cases Option.some.inj (there.symm.trans found)
      rcases tended.attended number before present with unstopped | joined | ⟨exited, free⟩
      · rcases step with ⟨_, advance⟩ | ⟨_, nudged | joined⟩
        · exact .inl (advance.unstopped unstopped faultless)
        · exact .inl (nudged.unstopped unstopped)
        · exact .inr (.inl joined)
      · rcases tended.sound.joined_kept made joined with still | ⟨gone, free⟩
        · exact .inr (.inl still)
        · have exited := position_of_gone gone present
          refine .inr (.inr ⟨move?_exited made present found exited, ?_⟩)
          rw [free]
          simp
      · refine .inr (.inr ⟨move?_exited made present found exited, ?_⟩)
        cases tended.sound.handover made with
        | keep same settled => rwa [same]
        | spawn launching free given grown =>
            have inside := (List.getElem?_eq_some_iff.mp present).1
            rw [given]
            intro same
            cases Option.some.inj same
            omega
        | drop held free settled detached =>
            rw [free]
            simp

theorem Tended.faultless_kept {worker : Worker} (tended : engine.Tended)
    (made : engine.move? move = some (next, events))
    (found : next.workers[number]? = some worker) : worker.position.faultless = true := by
  cases present : engine.workers[number]? with
  | none =>
      obtain ⟨_, _, _, _, _, _, rfl⟩ := move?_newcomer made present found
      rfl
  | some before =>
      have faultless := tended.faultless number before present
      obtain ⟨later, there, step⟩ := tended.move?_worker made present
      cases Option.some.inj (there.symm.trans found)
      rcases step with ⟨_, advance⟩ | ⟨position, _⟩
      · exact advance.faultless (tended.rated number before present) tended.difficulty faultless
      · rw [position]
        exact faultless

theorem Tended.rated_kept {worker : Worker} (tended : engine.Tended)
    (made : engine.move? move = some (next, events))
    (found : next.workers[number]? = some worker) :
    engine.agent.hashrate.perSecond ≠ 0 := by
  cases present : engine.workers[number]? with
  | none =>
      obtain ⟨_, caller, _, _, _, launching, _⟩ := move?_newcomer made present found
      exact tended.checked caller (by rw [launching]; rfl)
  | some before => exact tended.rated number before present

theorem Tended.stepCaller_checked (tended : engine.Tended) {caller : Nat}
    (taken : engine.stepCaller caller circumstances = some (next, events)) (other : Nat)
    (checked : (next.callers other).checked = true) :
    engine.agent.hashrate.perSecond ≠ 0 := by
  by_cases own : other = caller
  · subst own
    have before := tended.checked other
    cases stepCaller_cases taken with
    | startChecking standing rated => exact rated
    | startClaiming standing free => exact before (by rw [standing]; rfl)
    | _ =>
        rw [setCaller_self] at checked
        cases checked
  · rw [stepCaller_others taken own] at checked
    exact tended.checked other checked

/-- Only a stop empties the slot, and nobody else has the lifecycle lock then. -/
theorem Tended.stepCaller_filled (tended : engine.Tended) {caller : Nat}
    (taken : engine.stepCaller caller circumstances = some (next, events)) (other : Nat)
    (fills : (next.callers other).fills = true) : next.slot.active ≠ none := by
  by_cases own : other = caller
  · subst own
    have before := tended.filled other
    cases stepCaller_cases taken with
    | startDeciding_active standing active => simp [active]
    | startFilling standing => simp
    | startReleasing standing =>
        rename_i result
        rw [setCaller_self] at fills
        have filled : (Activity.startReleasing result).fills = true := by
          cases result <;> first | rfl | cases fills
        exact before (by rw [standing]; exact filled)
    | _ =>
        rw [setCaller_self] at fills
        cases fills
  · rw [stepCaller_others taken own] at fills
    have filled := tended.filled other fills
    have holds := Activity.holdsLifecycle_of_fills fills
    cases stepCaller_cases taken with
    | startFilling standing => simp
    | stopTaking standing =>
        exact absurd (tended.sound.locked.sole (by rw [standing]; rfl) holds) own
    | retiring standing given => exact (tended.sound.not_retiring standing).elim
    | _ => simpa [spawn, releaseSlot] using filled

/-- Without a retirement a step of a worker leaves the slot alone. -/
theorem Tended.stepWorker_slot (tended : engine.Tended)
    (taken : engine.stepWorker number circumstances = some (next, events)) :
    next.slot = engine.slot := by
  obtain ⟨worker, present, effect⟩ := stepWorker_effect taken
  cases effect with
  | own stream tally change settled => rfl
  | retiring standing given =>
      have faultless := tended.faultless number worker present
      rw [standing] at faultless
      cases faultless

/-- A caller that goes elsewhere claims nothing about the hash rate or the slot. -/
theorem Tended.setCaller_claims {activity : Activity} (tended : engine.Tended)
    (unchecked : activity.checked = false) (unfilled : activity.fills = false) :
    (∀ caller, ((engine.setCaller number activity).callers caller).checked = true →
        engine.agent.hashrate.perSecond ≠ 0) ∧
      ∀ caller, ((engine.setCaller number activity).callers caller).fills = true →
        engine.slot.active ≠ none := by
  refine ⟨?_, ?_⟩
  · intro caller checked
    rw [setCaller_callers] at checked
    split at checked
    · cases unchecked.symm.trans checked
    · exact tended.checked caller checked
  · intro caller fills
    rw [setCaller_callers] at fills
    split at fills
    · cases unfilled.symm.trans fills
    · exact tended.filled caller fills

theorem Tended.kept (tended : engine.Tended)
    (made : engine.move? move = some (next, events)) : next.Tended := by
  have agent := move?_agent made
  have faultless : ∀ (number : Nat) worker, next.workers[number]? = some worker →
      worker.position.faultless = true := fun _ _ found => tended.faultless_kept made found
  have rated : ∀ (number : Nat) worker, next.workers[number]? = some worker →
      next.agent.hashrate.perSecond ≠ 0 := by
    intro number worker found
    rw [agent]
    exact tended.rated_kept made found
  have callers : (∀ caller, (next.callers caller).checked = true →
        engine.agent.hashrate.perSecond ≠ 0) ∧
      ∀ caller, (next.callers caller).fills = true → next.slot.active ≠ none := by
    cases move?_cases made with
    | call idle =>
        rename_i call
        exact tended.setCaller_claims (by cases call <;> rfl) (by cases call <;> rfl)
    | failSpawn standing vacant => exact tended.setCaller_claims rfl rfl
    | setReportPath => exact ⟨tended.checked, tended.filled⟩
    | caller taken => exact ⟨tended.stepCaller_checked taken, tended.stepCaller_filled taken⟩
    | worker taken =>
        rw [(stepWorker_frame taken).1, tended.stepWorker_slot taken]
        exact ⟨tended.checked, tended.filled⟩
  exact
    { sound := tended.sound.kept made
      difficulty := tended.difficulty_kept made
      checked := by
        intro caller checked
        rw [agent]
        exact callers.1 caller checked
      rated := rated
      faultless := faultless
      filled := callers.2
      attended := by
        intro number worker found
        exact tended.attended_kept made (faultless number worker found) found }

theorem Reaches.tended {agent : Agent} {stream : Generator} {tally : Tally}
    {path : Option String} {history : History}
    (reached : (created agent stream .initial tally path).Reaches history engine) :
    engine.Tended :=
  reached.keeps (fun kept made => Tended.kept kept made)
    (tended_created agent stream tally path)

end Engine

end MiningAgent
