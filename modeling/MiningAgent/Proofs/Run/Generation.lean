import MiningAgent.Proofs.Run.Faltering

/-!
# Generations

Generations number the runs in the order of their workers, and the run in the slot is that
of a worker which nobody has asked to stop and which has not given it up.  So a retirement
takes no run but its own, and a run that has left the slot never comes back.
-/

namespace MiningAgent

/-- The worker whose run a start is about to put in the slot. -/
def Activity.filling : Activity → Option Nat
  | .startFilling _ worker => some worker
  | _ => none

theorem Activity.filling_eq_none {activity : Activity}
    (free : activity.holdsLifecycle = false) : activity.filling = none := by
  unfold Activity.filling
  split
  · cases free
  · rfl

/-- The generation that a retirement goes by, as long as that matters. -/
def Retirement.generation? : Retirement → Option UInt64
  | .locking generation => some generation
  | .claiming generation => some generation
  | .accounting run => some run.generation
  | _ => none

/-- Whether a worker still serves its run: it has neither taken a stop nor given the run up. -/
def Position.serving : Position → Bool
  | .waiting _ _ (.over .stopped) => false
  | position => position.attached

theorem Position.attached_of_serving {position : Position}
    (serving : position.serving = true) : position.attached = true := by
  unfold Position.serving at serving
  split at serving
  · rfl
  · exact serving

/-- A worker whose retirement, if it is in one, goes by its own generation. -/
def Worker.Named (worker : Worker) : Prop :=
  ∀ retirement fault, worker.position = .retiring retirement fault →
    ∀ generation, retirement.generation? = some generation → generation = worker.generation

/-- A worker that serves its run and has not been asked to stop. -/
structure Worker.Serving (worker : Worker) : Prop where
  connected : worker.mailbox.connected = true
  unasked : Signal.stop ∉ worker.mailbox.queue
  serving : worker.position.serving = true

theorem Worker.Nudged.serving {worker later : Worker} (nudged : worker.Nudged later)
    (serving : worker.Serving) : later.Serving := by
  cases nudged with
  | same => exact serving
  | interrupted reason =>
      refine ⟨serving.connected, ?_, serving.serving⟩
      intro member
      rcases List.mem_append.mp member with old | new
      · exact serving.unasked old
      · cases List.mem_singleton.mp new

section Advance

variable {engine : Engine} {circumstances : Circumstances} {worker later : Worker}

theorem Worker.Advance.generation (advance : worker.Advance engine circumstances later) :
    later.generation = worker.generation := by
  cases advance with
  | _ => rfl

theorem Worker.Advance.named (advance : worker.Advance engine circumstances later)
    (named : worker.Named) : later.Named := by
  intro retirement fault standing generation names
  cases advance with
  | drawing_unrated stood unrated =>
      cases standing
      exact (Option.some.inj names).symm
  | retiring stood given queue =>
      cases standing
      cases Engine.stepRetirement_cases given with
      | locking free => exact named _ _ stood generation names
      | claiming active => exact named _ _ stood generation names
      | claiming_foreign foreign | accounting | unlocking => cases names
  | _ => cases standing

/-- Outside of a retirement a worker goes on to serve its run. -/
theorem Worker.Advance.serving (advance : worker.Advance engine circumstances later)
    (serving : worker.Serving)
    (active : ∀ retirement fault, worker.position ≠ .retiring retirement fault) :
    later.Serving := by
  obtain ⟨connected, unasked, serves⟩ := serving
  cases advance with
  | taking standing unfinished queued =>
      rw [queued] at unasked
      refine ⟨connected, ?_, rfl⟩
      intro member
      exact unasked (List.mem_cons_of_mem _ member)
  | stopping standing unfinished queued =>
      rw [queued] at unasked
      exact absurd List.mem_cons_self unasked
  | losing standing patient empty disconnected =>
      rw [disconnected] at connected
      cases connected
  | retiring standing given queue => exact absurd standing (active _ _)
  | retiring_done standing => exact absurd standing (active _ _)
  | stopped standing | dying standing unfinished | dying_done standing | leaving standing =>
      rw [standing] at serves
      cases serves
  | _ => exact ⟨connected, unasked, rfl⟩

end Advance

namespace Engine

/-- The number of runs that have been put in the slot. -/
def runs (engine : Engine) : Nat :=
  (engine.held Activity.filling).getD engine.workers.length

/-- The worker whose run is in the slot, or about to be put there. -/
def launched (engine : Engine) : Option Nat :=
  (engine.held Activity.filling).or (engine.slot.active.map Run.worker)

/-- Generations number the workers, and runs have the generation of their worker. -/
structure Numbered (engine : Engine) : Prop where
  worker : ∀ (number : Nat) worker, engine.workers[number]? = some worker →
    worker.generation = UInt64.ofNat (number + 1)
  active : ∀ run, engine.slot.active = some run →
    run.generation = UInt64.ofNat (run.worker + 1)
  last : engine.slot.lastGeneration = UInt64.ofNat engine.runs
  filling : ∀ caller generation worker,
    engine.callers caller = .startFilling generation worker →
      generation = UInt64.ofNat (worker + 1) ∧ worker + 1 = engine.workers.length

/-- What holds of generations and of the run in the slot, also when draws fail. -/
structure Staffed (engine : Engine) : Prop where
  sound : engine.Sound
  numbered : engine.Numbered
  named : ∀ (number : Nat) worker, engine.workers[number]? = some worker → worker.Named
  own : ∀ (number : Nat) worker run fault, engine.workers[number]? = some worker →
    worker.position = .retiring (.accounting run) fault → run.worker = number
  serving : ∀ number, engine.launched = some number →
    ∃ worker, engine.workers[number]? = some worker ∧ worker.Serving

variable {start finish engine next : Engine} {history : History} {moment : Moment}
  {number caller : Nat} {circumstances : Circumstances} {events : List Event}

/-- Runs stay as many as they are, a start spawns a worker for one, or puts one in the slot. -/
inductive Launch (engine next : Engine) : Prop
  | keep (filling : next.held Activity.filling = engine.held Activity.filling)
      (settled : next.workers.length = engine.workers.length)
      (generation : next.slot.lastGeneration = engine.slot.lastGeneration)
      (active : next.slot.active = engine.slot.active ∨ next.slot.active = none)
      (callers : ∀ caller generation worker,
        next.callers caller = .startFilling generation worker →
        engine.callers caller = .startFilling generation worker)
  | spawn {caller : Nat} {context : Context}
      (launching : engine.callers caller = .startDeciding context)
      (before : engine.held Activity.filling = none)
      (after : next = (engine.spawn context).setCaller caller
        (.startFilling (engine.slot.lastGeneration + 1) engine.workers.length))
      (filling : next.held Activity.filling = some engine.workers.length)
  | fill {caller : Nat} {generation : UInt64} {worker : Nat} {now : Instant}
      (standing : engine.callers caller = .startFilling generation worker)
      (before : engine.held Activity.filling = some worker)
      (after : next = ({ engine with
        slot := ⟨generation, some ⟨generation, worker, now⟩⟩ }).setCaller caller
          (.startReleasing .started))
      (filling : next.held Activity.filling = none)

theorem Sound.held_of_filling {generation : UInt64} {worker : Nat} (sound : engine.Sound)
    (standing : engine.callers caller = .startFilling generation worker) :
    engine.held Activity.filling = some worker := by
  rw [sound.locked.held_eq standing rfl]
  rfl

/-- A start that is about to fill the slot holds both locks. -/
theorem Sound.vacant_of_filling (sound : engine.Sound)
    (filling : engine.held Activity.filling = some number) :
    engine.slot.active = none ∧ ∃ caller, engine.slotHolder = some (.caller caller) ∧
      ∃ generation, engine.callers caller = .startFilling generation number := by
  obtain ⟨caller, _, given⟩ := Option.bind_eq_some_iff.mp filling
  unfold Activity.filling at given
  split at given
  · rename_i generation worker standing
    cases given
    have holds : engine.HoldsSlot (.caller caller) := by
      simp only [HoldsSlot, standing, Activity.holdsSlot]
    refine ⟨sound.vacant caller ?_, caller, (sound.locked.slot _).mpr holds, generation, standing⟩
    rw [standing]
    rfl
  · cases given

theorem Sound.stepCaller_launch (sound : engine.Sound)
    (taken : engine.stepCaller caller circumstances = some (next, events)) :
    Launch engine next := by
  have lockedLater := sound.locked.stepCaller taken
  have others := fun other => @stepCaller_others engine next caller circumstances events taken other
  have kept := sound.locked.held_kept (fun _ free => Activity.filling_eq_none free) taken
  cases stepCaller_cases taken with
  | startDeciding standing vacant =>
      refine .spawn standing ?_ rfl ?_
      · rw [sound.locked.held_eq standing rfl]
        rfl
      · rw [lockedLater.held_eq (setCaller_self _ _ _) rfl]
        rfl
  | startFilling standing =>
      refine .fill standing (sound.held_of_filling standing) rfl ?_
      rw [lockedLater.held_eq (setCaller_self _ _ _) rfl]
      rfl
  | retiring standing given => exact (sound.not_retiring standing).elim
  | _ =>
      have same := kept (by rw [setCaller_self, ‹engine.callers caller = _›]; rfl)
      refine .keep same (by simp [releaseSlot]) (by simp [releaseSlot])
        (by simp [releaseSlot]) ?_
      intro other generation worker filling
      by_cases own : other = caller
      · subst own
        rw [setCaller_self] at filling
        cases filling
      · rw [← others other own]
        exact filling

theorem Sound.stepWorker_launch (taken : engine.stepWorker number circumstances =
    some (next, events)) : Launch engine next := by
  obtain ⟨callers, holder, _⟩ := stepWorker_frame taken
  have filling : next.held Activity.filling = engine.held Activity.filling := by
    simp only [held, callers, holder]
  have active := stepWorker_active taken
  have same (caller : Nat) (generation : UInt64) (worker : Nat)
      (standing : next.callers caller = .startFilling generation worker) :
      engine.callers caller = .startFilling generation worker := by
    rw [← callers]
    exact standing
  obtain ⟨worker, found, effect⟩ := stepWorker_effect taken
  cases effect with
  | own stream tally change settled => exact .keep filling (by simp) rfl active same
  | retiring standing given =>
      refine .keep filling (by simpa using stepRetirement_workers given) ?_ active same
      cases stepRetirement_cases given with
      | _ => rfl

theorem launch_setCaller {activity : Activity}
    (before : (engine.callers caller).filling = none) (after : activity.filling = none) :
    Launch engine (engine.setCaller caller activity) := by
  refine .keep (held_setCaller (after.trans before.symm)) rfl rfl (.inl rfl) ?_
  intro other generation worker standing
  rw [setCaller_callers] at standing
  split at standing
  · rw [standing] at after
    cases after
  · exact standing

theorem Sound.move?_launch (sound : engine.Sound) {move : Move}
    (made : engine.move? move = some (next, events)) : Launch engine next := by
  cases move?_cases made with
  | call idle =>
      rename_i caller call
      apply launch_setCaller
      · rw [idle]
        rfl
      · cases call <;> rfl
  | failSpawn standing vacant =>
      apply launch_setCaller
      · rw [standing]
        rfl
      · rfl
  | setReportPath => exact .keep rfl rfl rfl (.inl rfl) fun _ _ _ standing => standing
  | caller taken => exact sound.stepCaller_launch taken
  | worker taken => exact stepWorker_launch taken

theorem Sound.launch (sound : moment.before.Sound) (happens : moment.Happens) :
    Launch moment.before moment.after := by
  cases happens with
  | made made => exact sound.move?_launch made
  | failed own failed silent =>
      obtain ⟨_, _, _, _, after⟩ := failDraw_cases failed
      rw [after]
      exact .keep rfl (by simp) rfl (.inl rfl) fun _ _ _ standing => standing

theorem runs_of_filling (filling : engine.held Activity.filling = some number) :
    engine.runs = number := by
  rw [runs, filling, Option.getD_some]

theorem runs_of_unfilled (unfilled : engine.held Activity.filling = none) :
    engine.runs = engine.workers.length := by
  rw [runs, unfilled, Option.getD_none]

theorem Numbered.worker_kept (numbered : moment.before.Numbered) (sound : moment.before.Sound)
    (happens : moment.Happens) {later : Worker}
    (found : moment.after.workers[number]? = some later) :
    later.generation = UInt64.ofNat (number + 1) := by
  cases present : moment.before.workers[number]? with
  | none =>
      obtain ⟨rfl, caller, context, launching, rfl⟩ := happens.newcomer present found
      have unfilled : moment.before.held Activity.filling = none := by
        rw [sound.locked.held_eq launching rfl]
        rfl
      change moment.before.slot.lastGeneration + 1 = _
      rw [numbered.last, runs_of_unfilled unfilled, UInt64.ofNat_add]
      rfl
  | some worker =>
      have before := numbered.worker number worker present
      obtain ⟨after, there, step⟩ := happens.worker present
      cases Option.some.inj (there.symm.trans found)
      rcases step with ⟨_, _, advance⟩ | touched
      · rw [advance.generation, before]
      · rw [touched.generation, before]

theorem Numbered.active_kept (numbered : engine.Numbered) (launch : Launch engine next)
    {run : Run} (active : next.slot.active = some run) :
    run.generation = UInt64.ofNat (run.worker + 1) := by
  cases launch with
  | keep filling settled generation kept callers =>
      rcases kept with same | empty
      · exact numbered.active run (same.symm.trans active)
      · cases empty.symm.trans active
  | spawn launching before after filling =>
      rw [after] at active
      exact numbered.active run active
  | fill standing before after filling =>
      rw [after] at active
      cases active
      exact (numbered.filling _ _ _ standing).1

theorem Numbered.last_kept (numbered : engine.Numbered) (launch : Launch engine next) :
    next.slot.lastGeneration = UInt64.ofNat next.runs := by
  cases launch with
  | keep filling settled generation active callers =>
      have same : next.runs = engine.runs := by
        rw [runs, runs, filling, settled]
      rw [generation, same, numbered.last]
  | spawn launching before after filling =>
      have same : next.runs = engine.runs := by
        rw [runs_of_filling filling, runs_of_unfilled before]
      rw [same, ← numbered.last, after]
      rfl
  | fill standing before after filling =>
      obtain ⟨number, last⟩ := numbered.filling _ _ _ standing
      rw [runs_of_unfilled filling, after, setCaller_workers, ← last, ← number]
      rfl

theorem Numbered.filling_kept (numbered : engine.Numbered) (sound : engine.Sound)
    (launch : Launch engine next) {generation : UInt64} {worker : Nat}
    (standing : next.callers caller = .startFilling generation worker) :
    generation = UInt64.ofNat (worker + 1) ∧ worker + 1 = next.workers.length := by
  cases launch with
  | keep filling settled generation active callers =>
      rw [settled]
      exact numbered.filling _ _ _ (callers _ _ _ standing)
  | spawn launching before after filling =>
      rename_i starting context
      rw [after, setCaller_callers] at standing
      split at standing
      · cases standing
        have last := numbered.last
        rw [runs_of_unfilled before] at last
        refine ⟨?_, ?_⟩
        · rw [last, UInt64.ofNat_add]
          rfl
        · rw [after]
          simp [Engine.spawn]
      · cases before.symm.trans (sound.held_of_filling standing)
  | fill stood before after filling =>
      rw [after, setCaller_callers] at standing
      split at standing
      · cases standing
      · rename_i other
        exact absurd (sound.locked.sole (by rw [stood]; rfl) (by rw [standing]; rfl)) other

theorem Numbered.happens (numbered : moment.before.Numbered) (sound : moment.before.Sound)
    (happens : moment.Happens) : moment.after.Numbered := by
  have launch := sound.launch happens
  refine ⟨?_, ?_, numbered.last_kept launch, ?_⟩
  · intro number later found
    exact numbered.worker_kept sound happens found
  · intro run active
    exact numbered.active_kept launch active
  · intro caller generation worker standing
    exact numbered.filling_kept sound launch standing

/-! ## Claims -/

/-- A worker comes to account for a run by taking it out of the slot. -/
theorem Moment.Happens.claim (happens : moment.Happens) {later : Worker} {run : Run}
    {fault : Fault} (found : moment.after.workers[number]? = some later)
    (standing : later.position = .retiring (.accounting run) fault) :
    ∃ worker, moment.before.workers[number]? = some worker ∧
      (worker.position = later.position ∨
        worker.position = .retiring (.claiming run.generation) fault ∧
          moment.before.slot.active = some run ∧ moment.after.slot.active = none) := by
  cases present : moment.before.workers[number]? with
  | none =>
      obtain ⟨_, _, _, _, rfl⟩ := happens.newcomer present found
      cases standing
  | some worker =>
      refine ⟨worker, rfl, ?_⟩
      cases happens with
      | @failed stepping circumstances cause own failed silent =>
          obtain ⟨failing, seen, there, drawing, after⟩ := failDraw_cases failed
          rw [after, moveWorker_eq, changeWorker_getElem?, present] at found
          split at found
          · cases found
            cases standing
          · cases found
            exact .inl rfl
      | made made =>
          obtain ⟨after, there, ⟨circumstances, own, advance⟩ | ⟨_, touched⟩⟩ :=
            move?_worker made present
          · cases Option.some.inj (there.symm.trans found)
            rw [own] at made
            have taken : moment.before.stepWorker number circumstances =
                some (moment.after, moment.events) := made
            generalize moment.after = next at taken found
            obtain ⟨_, _, _, effect⟩ := stepWorker_cases taken present
            cases effect with
            | own stream tally change settled =>
                cases advance with
                | retiring stood given queue =>
                    rw [settled _ _ stood] at given
                    simp [stepRetirement] at given
                | _ => cases standing
            | retiring stood given =>
                obtain ⟨mailbox, _, kept⟩ := stepRetirement_worker given present
                rw [moveWorker_eq, changeWorker_getElem?, if_pos rfl, kept] at found
                cases found
                cases standing
                cases stepRetirement_cases given with
                | claiming active => exact .inr ⟨stood, active, rfl⟩
          · cases Option.some.inj (there.symm.trans found)
            exact .inl touched.position.symm

theorem Staffed.own_kept (staffed : moment.before.Staffed) (happens : moment.Happens)
    {later : Worker} {run : Run} {fault : Fault}
    (found : moment.after.workers[number]? = some later)
    (standing : later.position = .retiring (.accounting run) fault) : run.worker = number := by
  obtain ⟨worker, present, same | ⟨claiming, active, _⟩⟩ := happens.claim found standing
  · exact staffed.own number worker run fault present (same.trans standing)
  · have charged := staffed.sound.governed number worker present (by rw [claiming]; rfl)
    rw [staffed.sound.inCharge_of_active active] at charged
    exact Option.some.inj charged

theorem Staffed.named_kept (staffed : moment.before.Staffed) (happens : moment.Happens)
    {later : Worker} (found : moment.after.workers[number]? = some later) : later.Named := by
  cases present : moment.before.workers[number]? with
  | none =>
      obtain ⟨_, _, _, _, rfl⟩ := happens.newcomer present found
      intro retirement fault standing
      cases standing
  | some worker =>
      have named := staffed.named number worker present
      obtain ⟨after, there, step⟩ := happens.worker present
      cases Option.some.inj (there.symm.trans found)
      rcases step with ⟨_, _, advance⟩ | touched
      · exact advance.named named
      · intro retirement fault standing generation names
        rw [touched.position] at standing
        rw [touched.generation]
        exact named retirement fault standing generation names

/-- A run comes to be launched by the spawn of its worker. -/
theorem Launch.launched (launch : Launch engine next) (launched : next.launched = some number) :
    engine.launched = some number ∨
      ∃ caller context, number = engine.workers.length ∧
        next = (engine.spawn context).setCaller caller
          (.startFilling (engine.slot.lastGeneration + 1) engine.workers.length) := by
  cases launch with
  | keep filling settled generation active callers =>
      left
      rw [Engine.launched, filling] at launched
      rw [Engine.launched]
      rcases active with same | empty
      · rw [← same]
        exact launched
      · rw [empty, Option.map_none, Option.or_none] at launched
        rw [launched]
        rfl
  | spawn launching before after filling =>
      right
      rw [Engine.launched, filling] at launched
      exact ⟨_, _, (Option.some.inj launched).symm, after⟩
  | fill standing before after filling =>
      left
      rw [Engine.launched, filling, after] at launched
      rw [Engine.launched, before]
      exact launched

/-- While a stop joins a worker no run is launched. -/
theorem Sound.launched_of_joined (sound : engine.Sound) (joined : engine.Joined number) :
    engine.launched = none := by
  obtain ⟨caller, run, standing, _⟩ := joined
  have empty := sound.vacant caller (by rw [standing]; rfl)
  have unfilled : engine.held Activity.filling = none := by
    rw [sound.locked.held_eq standing rfl]
    rfl
  rw [launched, unfilled, empty]
  rfl

/-- A launched run whose worker holds the slot lock is in the slot. -/
theorem Sound.active_of_launched {worker : Worker} (sound : engine.Sound)
    (launched : engine.launched = some number)
    (found : engine.workers[number]? = some worker)
    (holds : worker.position.holdsSlot = true) :
    ∃ run, engine.slot.active = some run ∧ run.worker = number := by
  cases filling : engine.held Activity.filling with
  | some other =>
      obtain ⟨_, caller, holder, _⟩ := sound.vacant_of_filling filling
      have mine : engine.slotHolder = some (.worker number) :=
        (sound.locked.slot (.worker number)).mpr ⟨worker, found, holds⟩
      rw [holder] at mine
      cases mine
  | none =>
      rw [Engine.launched, filling] at launched
      exact Option.map_eq_some_iff.mp launched

/-- A retirement that takes its worker out of service empties the slot. -/
theorem Staffed.retirement_serves {worker : Worker} {retirement later : Retirement}
    {fault : Fault} {changed : Engine} (staffed : engine.Staffed)
    (found : engine.workers[number]? = some worker) (serving : worker.Serving)
    (standing : worker.position = .retiring retirement fault)
    (given : engine.stepRetirement (.worker number) circumstances retirement =
      some (later, changed))
    (before : engine.launched = some number)
    (launched : (changed.moveWorker number (.retiring later fault)).launched = some number) :
    ∃ after, (changed.moveWorker number (.retiring later fault)).workers[number]? =
      some after ∧ after.Serving := by
  have serves := serving.serving
  cases stepRetirement_cases given with
  | locking free =>
      rename_i generation
      refine ⟨{ worker with position := .retiring (.claiming generation) fault }, ?_, ?_⟩
      · simp [found]
      · exact ⟨serving.connected, serving.unasked, rfl⟩
  | claiming active =>
      exfalso
      cases filling : engine.held Activity.filling with
      | some other =>
          obtain ⟨empty, _⟩ := staffed.sound.vacant_of_filling filling
          cases empty.symm.trans active
      | none =>
          have none : (engine.held Activity.filling).or none = some number := launched
          rw [filling] at none
          cases none
  | claiming_foreign foreign =>
      exfalso
      obtain ⟨run, active, own⟩ := staffed.sound.active_of_launched before found
        (by rw [standing]; rfl)
      apply foreign run active
      rw [staffed.named number worker found _ _ standing _ rfl,
        staffed.numbered.active run active, staffed.numbered.worker number worker found, own]
  | accounting | unlocking =>
      rw [standing] at serves
      cases serves

theorem Staffed.stepWorker_serves {stepping : Nat} {worker : Worker} (staffed : engine.Staffed)
    (taken : engine.stepWorker stepping circumstances = some (next, events))
    (found : engine.workers[number]? = some worker) (serving : worker.Serving)
    (before : engine.launched = some number) (launched : next.launched = some number) :
    ∃ later, next.workers[number]? = some later ∧ later.Serving := by
  by_cases same : stepping = number
  · subst same
    obtain ⟨later, advance, there, effect⟩ := stepWorker_cases taken found
    cases effect with
    | retiring standing given =>
        exact staffed.retirement_serves found serving standing given before launched
    | own stream tally change settled =>
        refine ⟨later, there, advance.serving serving ?_⟩
        intro retirement fault standing
        have serves := serving.serving
        rw [standing, settled _ _ standing] at serves
        cases serves
  · obtain ⟨acting, present, effect⟩ := stepWorker_effect taken
    refine ⟨worker, ?_, serving⟩
    cases effect with
    | own stream tally change settled => simpa [same] using found
    | retiring standing given =>
        rw [moveWorker_eq, changeWorker_getElem?, if_neg same]
        cases stepRetirement_cases given with
        | accounting =>
            have own := staffed.own stepping acting _ _ present standing
            rw [disconnect, changeWorker_getElem?, own, if_neg same]
            exact found
        | _ => exact found

theorem Staffed.move?_serves {move : Move} {worker : Worker} (staffed : engine.Staffed)
    (made : engine.move? move = some (next, events))
    (found : engine.workers[number]? = some worker) (serving : worker.Serving)
    (before : engine.launched = some number) (launched : next.launched = some number) :
    ∃ later, next.workers[number]? = some later ∧ later.Serving := by
  have sound := staffed.sound
  have soundLater := sound.kept made
  cases move?_cases made with
  | call idle | failSpawn standing vacant | setReportPath => exact ⟨worker, found, serving⟩
  | worker taken => exact staffed.stepWorker_serves taken found serving before launched
  | caller taken =>
      obtain ⟨later, there, _, nudged | joined⟩ := sound.stepCaller_nudges taken found
      · exact ⟨later, there, nudged.serving serving⟩
      · cases (soundLater.launched_of_joined joined).symm.trans launched

theorem Staffed.serving_kept (staffed : moment.before.Staffed) (happens : moment.Happens)
    (launched : moment.after.launched = some number) :
    ∃ later, moment.after.workers[number]? = some later ∧ later.Serving := by
  rcases (staffed.sound.launch happens).launched launched with
    before | ⟨caller, context, rfl, after⟩
  · obtain ⟨worker, found, serving⟩ := staffed.serving number before
    cases happens with
    | failed own failed silent =>
        obtain ⟨failing, seen, present, standing, after⟩ := failDraw_cases failed
        rw [after, moveWorker_eq, changeWorker_getElem?, found]
        split
        · exact ⟨_, rfl, serving.connected, serving.unasked, rfl⟩
        · exact ⟨worker, rfl, serving⟩
    | made made => exact staffed.move?_serves made found serving before launched
  · refine ⟨⟨moment.before.slot.lastGeneration + 1, context, .fresh, .entering⟩, ?_, ?_⟩
    · rw [after, setCaller_workers, spawn]
      simp
    · exact ⟨rfl, by simp [Mailbox.fresh], rfl⟩

theorem staffed_created (agent : Agent) (stream : Generator) (tracker : Tracker)
    (tally : Tally) (path : Option String) :
    (created agent stream tracker tally path).Staffed where
  sound := sound_created agent stream tracker tally path
  numbered := by
    refine ⟨?_, ?_, rfl, ?_⟩
    · intro number worker found
      simp [created] at found
    · intro run active
      cases active
    · intro caller generation worker standing
      cases standing
  named := by
    intro number worker found
    simp [created] at found
  own := by
    intro number worker run fault found
    simp [created] at found
  serving := by
    intro number launched
    cases launched

theorem Staffed.happens (staffed : moment.before.Staffed) (happens : moment.Happens) :
    moment.after.Staffed where
  sound := staffed.sound.happens happens
  numbered := staffed.numbered.happens staffed.sound happens
  named := fun _ _ found => staffed.named_kept happens found
  own := fun _ _ _ _ found standing => staffed.own_kept happens found standing
  serving := fun _ launched => staffed.serving_kept happens launched

theorem Falters.staffed (reached : start.Falters history finish) (staffed : start.Staffed) :
    finish.Staffed ∧ ∀ moment ∈ history, moment.before.Staffed ∧ moment.Happens :=
  reached.keeps (fun kept happens => Staffed.happens kept happens) staffed

end Engine

end MiningAgent
