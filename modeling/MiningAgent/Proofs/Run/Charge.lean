import MiningAgent.Proofs.Run.Locks

/-!
# The worker in charge

A run is always in one place: in the slot, or in the hands of the start or stop that
holds the lifecycle lock.  Its worker is the only one that can still draw, wait or
announce.  `Engine.Sound` is the invariant that says so.  It holds for any number of
callers, and also when runs end by a fault.
-/

namespace MiningAgent

/-- A start or a stop ends with one of these results. -/
def Result.endsStart : Result → Bool
  | .started => true
  | .alreadyActive => true
  | .refused _ => true
  | _ => false

def Result.endsStop : Result → Bool
  | .stopped => true
  | .notActive => true
  | _ => false

/-- The worker of the run that a caller has in its hands: a start that has spawned it,
or a stop that has taken it out of the slot and not yet seen its worker exit. -/
def Activity.inHand : Activity → Option Nat
  | .startFilling _ worker => some worker
  | .stopReleasing (some run) => some run.worker
  | .stopSending run => some run.worker
  | .stopJoining run => some run.worker
  | _ => none

/-- Whether a caller can rely on the slot being empty. -/
def Activity.vacates : Activity → Bool
  | .startFilling _ _ => true
  | .stopReleasing _ => true
  | .stopSending _ => true
  | .stopJoining _ => true
  | .stopAccounting _ => true
  | .leaving result => result.endsStop
  | .closeReleasing active => !active
  | _ => false

/-- Whether an activity belongs to a call, with a result that fits it. -/
def Activity.isCall : Activity → Bool
  | .startReleasing result => result.endsStart
  | .leaving result => result.endsStart || result.endsStop
  | .retiring _ => false
  | .reporting _ => false
  | _ => true

/-- Whether a worker still goes about the run it was spawned for. -/
def Position.attached : Position → Bool
  | .retiring (.accounting _) _ => false
  | .retiring .unlocking _ => false
  | .retiring .done _ => false
  | .dying _ => false
  | .leaving => false
  | .exited => false
  | _ => true

/-- Whether a worker goes through iterations and has taken no stop. -/
def Position.working : Position → Bool
  | .waiting _ _ (.over .stopped) => false
  | .retiring _ _ => false
  | .dying _ => false
  | .leaving => false
  | .exited => false
  | _ => true

theorem Position.attached_of_working {position : Position}
    (working : position.working = true) : position.attached = true := by
  unfold attached
  split
  all_goals first | rfl | cases working

theorem Result.endsStop_eq_false {result : Result} (ends : result.endsStart = true) :
    result.endsStop = false := by
  cases result with
  | started | alreadyActive | refused fault => rfl
  | _ => cases ends

theorem Activity.holdsLifecycle_of_inHand {activity : Activity} {worker : Nat}
    (held : activity.inHand = some worker) : activity.holdsLifecycle = true := by
  unfold inHand at held
  split at held
  all_goals first | rfl | cases held

theorem Activity.vacates_of_inHand {activity : Activity} {worker : Nat}
    (held : activity.inHand = some worker) : activity.vacates = true := by
  unfold inHand at held
  split at held
  all_goals first | rfl | cases held

theorem Activity.holds_of_vacates {activity : Activity} (empty : activity.vacates = true) :
    activity.holdsLifecycle = true ∨ activity.holdsSlot = true := by
  unfold vacates at empty
  split at empty
  all_goals first | exact .inl rfl | exact .inr rfl | cases empty

/-- A worker that has given up its run does not take it up again. -/
theorem Worker.Advance.attached {engine : Engine} {circumstances : Circumstances}
    {worker later : Worker} (advance : worker.Advance engine circumstances later)
    (attached : later.position.attached = true) : worker.position.attached = true := by
  cases advance with
  | retiring standing given queue =>
      rw [standing]
      cases Engine.stepRetirement_cases given with
      | locking free | claiming active | claiming_foreign foreign => rfl
      | accounting | unlocking => cases attached
  | retiring_done standing => cases attached
  | dying standing unfinished => cases attached
  | dying_done standing => cases attached
  | leaving standing => cases attached
  | _ =>
      rw [‹worker.position = _›]
      rfl

namespace Engine

/-- The worker that the holder of the lifecycle lock has in its hands. -/
def hand (engine : Engine) : Option Nat := engine.held Activity.inHand

/-- The worker whose run is in a start's or stop's hands, or else in the slot. -/
def inCharge (engine : Engine) : Option Nat :=
  engine.hand.or (engine.slot.active.map Run.worker)

/-- What holds however callers and workers take turns. -/
structure Sound (engine : Engine) : Prop where
  locked : engine.Locked
  proper : ∀ number, (engine.callers number).isCall = true
  vacant : ∀ number, (engine.callers number).vacates = true → engine.slot.active = none
  present : ∀ number, engine.inCharge = some number → number < engine.workers.length
  governed : ∀ (number : Nat) worker, engine.workers[number]? = some worker →
    worker.position.attached = true → engine.inCharge = some number

variable {engine next : Engine} {move : Move} {number : Nat} {circumstances : Circumstances}
  {events : List Event}

theorem Sound.not_retiring {retirement : Retirement} (sound : engine.Sound)
    (standing : engine.callers number = .retiring retirement) : False := by
  have proper := sound.proper number
  rw [standing] at proper
  cases proper

theorem hand_caller {worker : Nat} (held : engine.hand = some worker) :
    ∃ number, (engine.callers number).inHand = some worker := by
  obtain ⟨number, _, given⟩ := Option.bind_eq_some_iff.mp held
  exact ⟨number, given⟩

theorem inHand_eq_none {activity : Activity} (free : activity.holdsLifecycle = false) :
    activity.inHand = none := by
  cases held : activity.inHand with
  | none => rfl
  | some worker =>
      rw [Activity.holdsLifecycle_of_inHand held] at free
      cases free

theorem Sound.hand_eq {activity : Activity} (sound : engine.Sound)
    (standing : engine.callers number = activity)
    (holds : activity.holdsLifecycle = true) : engine.hand = activity.inHand :=
  sound.locked.held_eq standing holds

/-- A run in the slot is in nobody's hands. -/
theorem Sound.hand_of_active {run : Run} (sound : engine.Sound)
    (active : engine.slot.active = some run) : engine.hand = none := by
  cases held : engine.hand with
  | none => rfl
  | some worker =>
      obtain ⟨holder, given⟩ := hand_caller held
      have empty := sound.vacant holder (Activity.vacates_of_inHand given)
      cases empty.symm.trans active

theorem Sound.inCharge_of_active {run : Run} (sound : engine.Sound)
    (active : engine.slot.active = some run) : engine.inCharge = some run.worker := by
  simp [inCharge, sound.hand_of_active active, active]

/-- What a step does to the charge: it stays where it is, a start gives it to the worker
it spawns, or it is taken from a worker that has given up its run. -/
inductive Handover (engine next : Engine) : Prop
  | keep (same : next.inCharge = engine.inCharge)
      (settled : next.workers.length = engine.workers.length)
  | spawn {caller : Nat} {context : Context}
      (launching : engine.callers caller = .startDeciding context)
      (free : engine.inCharge = none)
      (given : next.inCharge = some engine.workers.length)
      (grown : next.workers.length = engine.workers.length + 1)
  | drop {worker : Nat} (held : engine.inCharge = some worker)
      (free : next.inCharge = none)
      (settled : next.workers.length = engine.workers.length)
      (detached : ∀ later, next.workers[worker]? = some later →
        later.position.attached = false)

/-- A retirement empties the slot or leaves it as it is. -/
theorem stepRetirement_active {actor : Actor} {retirement later : Retirement}
    {changed : Engine}
    (given : engine.stepRetirement actor circumstances retirement = some (later, changed)) :
    changed.slot = engine.slot ∨
      ∃ generation run, retirement = .claiming generation ∧ engine.slot.active = some run ∧
        later = .accounting run ∧ changed.slot.active = none := by
  cases stepRetirement_cases given with
  | claiming active => exact .inr ⟨_, _, rfl, active, rfl, rfl⟩
  | _ => exact .inl rfl

/-- Only a start fills the slot. -/
theorem stepCaller_active
    (taken : engine.stepCaller number circumstances = some (next, events)) :
    next.slot.active = engine.slot.active ∨ next.slot.active = none ∨
      ∃ generation worker, engine.callers number = .startFilling generation worker := by
  cases stepCaller_cases taken with
  | startFilling standing => exact .inr (.inr ⟨_, _, standing⟩)
  | stopTaking standing => exact .inr (.inl rfl)
  | retiring standing given =>
      rcases stepRetirement_active given with same | ⟨_, _, _, _, _, empty⟩
      · exact .inl (by simp [same])
      · exact .inr (.inl (by simpa using empty))
  | _ => exact .inl (by simp [spawn, releaseSlot])

theorem position_of_gone {worker : Worker} (gone : engine.receives number = false)
    (found : engine.workers[number]? = some worker) : worker.position = .exited := by
  simpa [receives, found] using gone

theorem Sound.stepCaller_handover (sound : engine.Sound)
    (taken : engine.stepCaller number circumstances = some (next, events)) :
    Handover engine next := by
  have lockedLater := sound.locked.stepCaller taken
  have kept := sound.locked.held_kept (fun _ free => inHand_eq_none free) taken
  cases stepCaller_cases taken with
  | startDeciding standing vacant =>
      refine .spawn standing ?_ ?_ (by simp [Engine.spawn])
      · rw [inCharge, sound.hand_eq standing rfl, vacant]
        rfl
      · rw [inCharge, hand, lockedLater.held_eq (setCaller_self _ _ _) rfl]
        rfl
  | startFilling standing =>
      refine .keep ?_ rfl
      rw [inCharge, inCharge, sound.hand_eq standing rfl, hand,
        lockedLater.held_eq (setCaller_self _ _ _) rfl]
      rfl
  | stopTaking standing =>
      refine .keep ?_ rfl
      rw [inCharge, inCharge, sound.hand_eq standing rfl, hand,
        lockedLater.held_eq (setCaller_self _ _ _) rfl]
      cases engine.slot.active <;> rfl
  | stopJoining standing gone =>
      have empty : engine.slot.active = none := sound.vacant number (by rw [standing]; rfl)
      have held := sound.hand_eq standing rfl
      refine .drop (by rw [inCharge, held]; rfl) ?_ rfl ?_
      · rw [inCharge, hand, lockedLater.held_eq (setCaller_self _ _ _) rfl, setCaller_slot, empty]
        rfl
      · intro later found
        have exited : later.position = .exited := position_of_gone gone found
        rw [exited]
        rfl
  | retiring standing given => exact (sound.not_retiring standing).elim
  | _ =>
      refine .keep ?_ (by simp [releaseSlot])
      rw [inCharge, inCharge, hand, hand,
        kept (by rw [setCaller_self, ‹engine.callers number = _›]; rfl)]
      simp [releaseSlot]

theorem Sound.stepWorker_handover (sound : engine.Sound)
    (taken : engine.stepWorker number circumstances = some (next, events)) :
    Handover engine next := by
  obtain ⟨callers, holder, _, _⟩ := stepWorker_frame taken
  have hand : next.hand = engine.hand := by simp only [Engine.hand, held, callers, holder]
  obtain ⟨worker, present, effect⟩ := stepWorker_effect taken
  cases effect with
  | own stream tally change settled =>
      refine .keep ?_ (by simp)
      rw [inCharge, inCharge, hand]
      simp
  | @retiring retirement after fault changed standing given =>
      have length : (changed.moveWorker number (.retiring after fault)).workers.length =
          engine.workers.length := by
        simpa using stepRetirement_workers given
      rcases stepRetirement_active given with same |
        ⟨generation, run, rfl, active, rfl, empty⟩
      · refine .keep ?_ length
        rw [inCharge, inCharge, hand]
        simp [same]
      · have held := sound.governed number worker present (by rw [standing]; rfl)
        refine .drop held ?_ length ?_
        · rw [inCharge, hand, sound.hand_of_active active]
          simpa using empty
        · intro stepped found
          obtain ⟨mailbox, _, kept⟩ := stepRetirement_worker given present
          simp only [moveWorker_eq, changeWorker_getElem?, kept] at found
          cases found
          rfl

/-! ## The invariant is kept -/

theorem sound_created (agent : Agent) (stream : Generator) (tracker : Tracker)
    (tally : Tally) (path : Option String) :
    (created agent stream tracker tally path).Sound where
  locked := locked_created agent stream tracker tally path
  proper := fun _ => rfl
  vacant := fun _ _ => rfl
  present := by
    intro number charged
    cases charged
  governed := by
    intro number worker found
    simp [created] at found

/-- Whatever hands the charge over keeps every attached worker in charge. -/
theorem Sound.governed_kept (sound : engine.Sound)
    (made : engine.move? move = some (next, events)) (handover : Handover engine next)
    (worker : Worker) (found : next.workers[number]? = some worker)
    (attached : worker.position.attached = true) : next.inCharge = some number := by
  cases present : engine.workers[number]? with
  | none =>
      have outside : engine.workers.length ≤ number := List.getElem?_eq_none_iff.mp present
      have inside : number < next.workers.length := (List.getElem?_eq_some_iff.mp found).1
      cases handover with
      | keep same settled => omega
      | spawn launching free given grown =>
          obtain ⟨last, _⟩ := move?_newcomer made present found
          rw [given, last]
      | drop held free settled detached => omega
  | some before =>
      obtain ⟨later, there, step⟩ := move?_worker made present
      cases Option.some.inj (there.symm.trans found)
      have attachedBefore : before.position.attached = true := by
        rcases step with ⟨_, _, advance⟩ | ⟨_, touched⟩
        · exact advance.attached attached
        · rw [← touched.position]
          exact attached
      have charged := sound.governed number before present attachedBefore
      cases handover with
      | keep same settled => rw [same, charged]
      | spawn launching free given grown =>
          rw [free] at charged
          cases charged
      | drop held free settled detached =>
          cases Option.some.inj (held.symm.trans charged)
          rw [detached worker found] at attached
          cases attached

theorem Sound.present_kept (sound : engine.Sound) (handover : Handover engine next)
    (charged : next.inCharge = some number) : number < next.workers.length := by
  cases handover with
  | keep same settled =>
      rw [settled]
      exact sound.present number (same.symm.trans charged)
  | spawn launching free given grown =>
      cases Option.some.inj (given.symm.trans charged)
      omega
  | drop held free settled detached =>
      rw [free] at charged
      cases charged

theorem Sound.stepCaller_proper (sound : engine.Sound)
    (taken : engine.stepCaller number circumstances = some (next, events)) (other : Nat) :
    (next.callers other).isCall = true := by
  by_cases own : other = number
  · subst own
    have proper := sound.proper other
    cases stepCaller_cases taken with
    | startReleasing standing =>
        rw [standing] at proper
        rw [setCaller_self]
        exact Bool.or_eq_true_iff.mpr (.inl proper)
    | retiring standing given | reporting standing unfinished =>
        rw [standing] at proper
        cases proper
    | _ =>
        rw [setCaller_self]
        rfl
  · rw [stepCaller_others taken own]
    exact sound.proper other

/-- A caller that relies on an empty slot keeps everybody else from filling it. -/
theorem Sound.stepCaller_vacant (sound : engine.Sound)
    (taken : engine.stepCaller number circumstances = some (next, events)) (other : Nat)
    (vacates : (next.callers other).vacates = true) : next.slot.active = none := by
  by_cases own : other = number
  · subst own
    have vacant := sound.vacant other
    cases stepCaller_cases taken with
    | startDeciding standing empty => exact empty
    | stopTaking standing => rfl
    | stopReleasing_none standing | stopReleasing standing | stopSending standing
    | stopJoining standing gone | stopAccounting standing =>
        simpa [releaseSlot] using vacant (by rw [standing]; rfl)
    | startReleasing standing =>
        have proper := sound.proper other
        rw [standing] at proper
        rw [setCaller_self] at vacates
        have stays : _ = false := Result.endsStop_eq_false proper
        cases stays.symm.trans vacates
    | closeLooking standing =>
        rw [setCaller_self] at vacates
        simpa [Activity.vacates, isMining] using vacates
    | retiring standing given =>
        rw [setCaller_self] at vacates
        cases vacates
    | _ =>
        rw [setCaller_self] at vacates
        cases vacates
  · rw [stepCaller_others taken own] at vacates
    have empty := sound.vacant other vacates
    rcases stepCaller_active taken with same | emptied | ⟨generation, worker, standing⟩
    · rw [same, empty]
    · exact emptied
    · exfalso
      rcases Activity.holds_of_vacates vacates with lifecycle | slot
      · exact own (sound.locked.sole (by rw [standing]; rfl) lifecycle)
      · have holds : engine.HoldsSlot (.caller number) := by
          simp [HoldsSlot, standing, Activity.holdsSlot]
        have mine := (sound.locked.slot (.caller number)).mpr holds
        have others := (sound.locked.slot (.caller other)).mpr slot
        cases Option.some.inj (others.symm.trans mine)
        exact own rfl

/-- A move that puts one caller somewhere else, at a place that says the same about the
locks and the run. -/
theorem Sound.setCaller {activity : Activity} (sound : engine.Sound)
    (lifecycle : activity.holdsLifecycle = (engine.callers number).holdsLifecycle)
    (slot : activity.holdsSlot = (engine.callers number).holdsSlot)
    (hand : activity.inHand = (engine.callers number).inHand)
    (proper : activity.isCall = true) (vacant : activity.vacates = false) :
    (engine.setCaller number activity).Sound ∧
      (engine.setCaller number activity).inCharge = engine.inCharge := by
  have charge : (engine.setCaller number activity).inCharge = engine.inCharge := by
    rw [inCharge, inCharge, Engine.hand, Engine.hand, held_setCaller hand, setCaller_slot]
  refine ⟨⟨sound.locked.setCaller lifecycle slot, ?_, ?_, ?_, ?_⟩, charge⟩
  · intro other
    rw [setCaller_callers]
    split
    · exact proper
    · exact sound.proper other
  · intro other vacates
    rw [setCaller_callers] at vacates
    split at vacates
    · rw [vacant] at vacates
      cases vacates
    · exact sound.vacant other vacates
  · intro other charged
    rw [charge] at charged
    exact sound.present other charged
  · intro other worker found attached
    rw [charge]
    exact sound.governed other worker found attached

theorem Sound.call {call : Call} (sound : engine.Sound)
    (idle : engine.callers number = .idle) :
    (engine.setCaller number call.entry).Sound ∧
      (engine.setCaller number call.entry).inCharge = engine.inCharge := by
  apply sound.setCaller
  · rw [idle]
    cases call <;> rfl
  · rw [idle]
    cases call <;> rfl
  · rw [idle]
    cases call <;> rfl
  · cases call <;> rfl
  · cases call <;> rfl

theorem Sound.failSpawn {context : Context} {fault : Fault} (sound : engine.Sound)
    (standing : engine.callers number = .startDeciding context) :
    (engine.setCaller number (.startReleasing (.refused fault))).Sound ∧
      (engine.setCaller number (.startReleasing (.refused fault))).inCharge =
        engine.inCharge := by
  apply sound.setCaller
  · rw [standing]
    rfl
  · rw [standing]
    rfl
  · rw [standing]
    rfl
  · rfl
  · rfl

theorem Sound.handover (sound : engine.Sound)
    (made : engine.move? move = some (next, events)) : Handover engine next := by
  cases move?_cases made with
  | call idle => exact .keep (sound.call idle).2 rfl
  | failSpawn standing vacant => exact .keep (sound.failSpawn standing).2 rfl
  | setReportPath => exact .keep rfl rfl
  | caller taken => exact sound.stepCaller_handover taken
  | worker taken => exact sound.stepWorker_handover taken

theorem stepWorker_active
    (taken : engine.stepWorker number circumstances = some (next, events)) :
    next.slot.active = engine.slot.active ∨ next.slot.active = none := by
  obtain ⟨worker, _, effect⟩ := stepWorker_effect taken
  cases effect with
  | own stream tally change settled => exact .inl rfl
  | retiring standing given =>
      rcases stepRetirement_active given with same | ⟨_, _, _, _, _, empty⟩
      · exact .inl (by simp [same])
      · exact .inr (by simpa using empty)

theorem Sound.kept (sound : engine.Sound)
    (made : engine.move? move = some (next, events)) : next.Sound := by
  have locked := sound.locked.kept made
  have handover := sound.handover made
  have present := fun number => @Sound.present_kept engine next number sound handover
  have governed := fun number => @Sound.governed_kept engine next move number events sound made
    handover
  cases move?_cases made with
  | call idle => exact (sound.call idle).1
  | failSpawn standing vacant => exact (sound.failSpawn standing).1
  | setReportPath => exact ⟨locked, sound.proper, sound.vacant, present, governed⟩
  | caller taken =>
      exact ⟨locked, sound.stepCaller_proper taken, sound.stepCaller_vacant taken, present,
        governed⟩
  | worker taken =>
      have callers := (stepWorker_frame taken).1
      refine ⟨locked, ?_, ?_, present, governed⟩
      · intro number
        rw [callers]
        exact sound.proper number
      · intro number vacates
        rw [callers] at vacates
        rcases stepWorker_active taken with same | empty
        · rw [same]
          exact sound.vacant number vacates
        · exact empty

/-- A stop that waits for a worker waits until that worker has exited. -/
theorem stopJoining_kept {caller : Nat} {run : Run}
    (standing : engine.callers caller = .stopJoining run)
    (made : engine.move? move = some (next, events)) :
    next.callers caller = .stopJoining run ∨
      (engine.receives run.worker = false ∧ next = engine.setCaller caller (.stopAccounting run)) := by
  cases move?_cases made with
  | call elsewhere | failSpawn elsewhere vacant =>
      left
      rw [setCaller_callers, if_neg]
      · exact standing
      · rintro rfl
        cases standing.symm.trans elsewhere
  | setReportPath => exact .inl standing
  | worker taken =>
      left
      rw [(stepWorker_frame taken).1]
      exact standing
  | caller taken =>
      rename_i other circumstances
      by_cases own : caller = other
      · subst own
        simp only [stepCaller, standing] at taken
        split at taken
        · cases taken
        · rename_i gone
          cases taken
          exact .inr ⟨(Bool.not_eq_true _).mp gone, rfl⟩
      · left
        rw [stepCaller_others taken own]
        exact standing

theorem Reaches.sound {start : Engine} {history : History}
    (reached : start.Reaches history engine) (sound : start.Sound) : engine.Sound :=
  reached.keeps (fun kept made => Sound.kept kept made) sound

end Engine

end MiningAgent
