import MiningAgent.Proofs.Run.History

/-!
# The two locks

The holder of a lock is always the one actor that stands where its code holds it, and
a holder of the slot lock is never blocked.
-/

namespace MiningAgent

def Activity.holdsLifecycle : Activity → Bool
  | .startChecking _ => true
  | .startRefusing _ _ => true
  | .startClaiming _ => true
  | .startDeciding _ => true
  | .startFilling _ _ => true
  | .startReleasing _ => true
  | .stopClaiming => true
  | .stopTaking => true
  | .stopReleasing _ => true
  | .stopSending _ => true
  | .stopJoining _ => true
  | .stopAccounting _ => true
  | .leaving _ => true
  | _ => false

def Retirement.holdsSlot : Retirement → Bool
  | .claiming _ => true
  | .accounting _ => true
  | .unlocking => true
  | _ => false

def Activity.holdsSlot : Activity → Bool
  | .startDeciding _ => true
  | .startFilling _ _ => true
  | .startReleasing _ => true
  | .stopTaking => true
  | .stopReleasing _ => true
  | .interruptSending _ _ => true
  | .interruptReleasing _ _ => true
  | .closeLooking => true
  | .closeReleasing _ => true
  | .retiring retirement => retirement.holdsSlot
  | _ => false

def Position.holdsSlot : Position → Bool
  | .retiring retirement _ => retirement.holdsSlot
  | _ => false

/-- A step of `actor` leaves a lock alone, takes it or gives it back. -/
inductive LockStep {α : Type} (actor : α) (holder later : Option α) (held stillHeld : Bool) :
    Prop
  | keep (same : later = holder) (alike : stillHeld = held)
  | take (free : holder = none) (taken : later = some actor)
      (before : held = false) (after : stillHeld = true)
  | release (free : later = none) (before : held = true) (after : stillHeld = false)

/-- If every other actor stays where it stands, the holder goes on to be the one actor
that holds the lock. -/
theorem LockStep.agrees {α : Type} {actor : α} {holder later : Option α}
    {held stillHeld : Bool} {holds holdsLater : α → Prop}
    (step : LockStep actor holder later held stillHeld)
    (agrees : ∀ other, holder = some other ↔ holds other)
    (others : ∀ other, other ≠ actor → (holdsLater other ↔ holds other))
    (own : holds actor ↔ held = true) (ownLater : holdsLater actor ↔ stillHeld = true)
    (other : α) : later = some other ↔ holdsLater other := by
  by_cases same : other = actor
  · subst same
    cases step with
    | keep kept alike => rw [kept, agrees, own, ownLater, alike]
    | take free taken before after => simp [taken, ownLater, after]
    | release free before after => simp [free, ownLater, after]
  · rw [others other same, ← agrees other]
    cases step with
    | keep kept alike => rw [kept]
    | take free taken before after => simp [free, taken, Ne.symm same]
    | release free before after =>
        have holder_eq : holder = some actor := (agrees actor).mpr (own.mpr before)
        simp [free, holder_eq, Ne.symm same]

namespace Engine

/-- Whether an actor stands where its code holds the slot lock. -/
def HoldsSlot (engine : Engine) : Actor → Prop
  | .caller number => (engine.callers number).holdsSlot = true
  | .worker number => ∃ worker,
      engine.workers[number]? = some worker ∧ worker.position.holdsSlot = true

structure Locked (engine : Engine) : Prop where
  lifecycle : ∀ number, engine.lifecycleHolder = some number ↔
    (engine.callers number).holdsLifecycle = true
  slot : ∀ actor, engine.slotHolder = some actor ↔ engine.HoldsSlot actor

variable {engine next : Engine} {move : Move} {number : Nat} {circumstances : Circumstances}
  {events : List Event}

theorem locked_created (agent : Agent) (stream : Generator) (tracker : Tracker)
    (tally : Tally) (path : Option String) :
    (created agent stream tracker tally path).Locked := by
  constructor
  · intro number
    simp [created, Activity.holdsLifecycle]
  · intro actor
    cases actor <;> simp [created, HoldsSlot, Activity.holdsSlot]

theorem stepRetirement_frame {actor : Actor} {retirement later : Retirement}
    {changed : Engine}
    (given : engine.stepRetirement actor circumstances retirement = some (later, changed)) :
    changed.callers = engine.callers ∧ changed.lifecycleHolder = engine.lifecycleHolder ∧
      changed.tracker = engine.tracker ∧ changed.agent = engine.agent := by
  cases stepRetirement_cases given with
  | _ => exact ⟨rfl, rfl, rfl, rfl⟩

theorem stepRetirement_lock {actor : Actor} {retirement later : Retirement}
    {changed : Engine}
    (given : engine.stepRetirement actor circumstances retirement = some (later, changed)) :
    LockStep actor engine.slotHolder changed.slotHolder retirement.holdsSlot
      later.holdsSlot := by
  cases stepRetirement_cases given with
  | locking free => exact .take free rfl rfl rfl
  | unlocking => exact .release rfl rfl rfl
  | _ => exact .keep rfl rfl

/-- A step of a caller leaves every other caller where it stands. -/
theorem stepCaller_others
    (taken : engine.stepCaller number circumstances = some (next, events)) {other : Nat}
    (different : other ≠ number) : next.callers other = engine.callers other := by
  cases stepCaller_cases taken with
  | retiring standing given => simp [different, (stepRetirement_frame given).1]
  | startDeciding standing vacant => simp [spawn, different]
  | _ => simp [releaseSlot, different]

/-- A step of a worker moves no caller and leaves the tracker and the lifecycle lock
alone. -/
theorem stepWorker_frame
    (taken : engine.stepWorker number circumstances = some (next, events)) :
    next.callers = engine.callers ∧ next.lifecycleHolder = engine.lifecycleHolder ∧
      next.tracker = engine.tracker ∧ next.agent = engine.agent := by
  obtain ⟨worker, _, effect⟩ := stepWorker_effect taken
  cases effect with
  | own stream tally change settled => exact ⟨rfl, rfl, rfl, rfl⟩
  | retiring standing given => simpa using stepRetirement_frame given

/-- A move leaves every caller where it stands that the move is not about. -/
theorem move?_callers (made : engine.move? move = some (next, events))
    (apart : move.caller? ≠ some number) : next.callers number = engine.callers number := by
  have different {other : Nat} (about : move.caller? = some other) : number ≠ other := by
    rintro rfl
    exact apart about
  cases move?_cases made with
  | call idle => simp [different rfl]
  | failSpawn standing vacant => simp [different rfl]
  | setReportPath => rfl
  | caller taken => exact stepCaller_others taken (different rfl)
  | worker taken => rw [(stepWorker_frame taken).1]

theorem move?_agent (made : engine.move? move = some (next, events)) :
    next.agent = engine.agent := by
  cases move?_cases made with
  | call idle | failSpawn standing vacant | setReportPath => rfl
  | worker taken => exact (stepWorker_frame taken).2.2.2
  | caller taken =>
      cases stepCaller_cases taken with
      | retiring standing given => exact (stepRetirement_frame given).2.2.2
      | _ => simp [spawn, releaseSlot]

theorem Reaches.agent {start finish : Engine} {history : History}
    (reached : start.Reaches history finish) : finish.agent = start.agent := by
  induction reached with
  | refl => rfl
  | move _ made inductionHypothesis => rw [move?_agent made, inductionHypothesis]

/-- Only an accepted update changes the tracker. -/
theorem move?_tracker (made : engine.move? move = some (next, events)) :
    next.tracker = engine.tracker ∨
      ∃ announcement, engine.tracker.judge announcement = .accepted ∧
        next.tracker = ⟨some announcement⟩ := by
  cases move?_cases made with
  | call idle | failSpawn standing vacant | setReportPath => exact .inl rfl
  | worker taken => exact .inl (stepWorker_frame taken).2.2.1
  | caller taken =>
      cases stepCaller_cases taken with
      | updating_accepted standing accepted entries => exact .inr ⟨_, accepted, rfl⟩
      | retiring standing given => exact .inl (stepRetirement_frame given).2.2.1
      | _ => exact .inl (by simp [spawn, releaseSlot])

theorem stepCaller_lifecycle
    (taken : engine.stepCaller number circumstances = some (next, events)) :
    LockStep number engine.lifecycleHolder next.lifecycleHolder
      (engine.callers number).holdsLifecycle (next.callers number).holdsLifecycle := by
  cases stepCaller_cases taken with
  | startLocking standing free => exact .take free rfl (by rw [standing]; rfl) (by simp; rfl)
  | stopLocking standing free => exact .take free rfl (by rw [standing]; rfl) (by simp; rfl)
  | leaving standing => exact .release rfl (by rw [standing]; rfl) (by simp; rfl)
  | retiring standing given =>
      refine .keep ?_ ?_
      · simp [(stepRetirement_frame given).2.1]
      · simp [standing, Activity.holdsLifecycle]
  | _ =>
      refine .keep (by simp [spawn, releaseSlot]) ?_
      rw [setCaller_self, ‹engine.callers number = _›]
      rfl

theorem stepCaller_slot
    (taken : engine.stepCaller number circumstances = some (next, events)) :
    LockStep (.caller number) engine.slotHolder next.slotHolder
      (engine.callers number).holdsSlot (next.callers number).holdsSlot := by
  cases stepCaller_cases taken with
  | startClaiming standing free | stopClaiming standing free
  | interruptClaiming standing free | closeClaiming standing free =>
      exact .take free rfl (by rw [standing]; rfl) (by simp; rfl)
  | startReleasing standing | stopReleasing_none standing | stopReleasing standing
  | interruptReleasing standing | closeReleasing standing | closeReleasing_idle standing =>
      exact .release rfl (by rw [standing]; rfl) (by simp; rfl)
  | retiring standing given => simpa [standing, Activity.holdsSlot] using stepRetirement_lock given
  | _ =>
      refine .keep (by simp [spawn]) ?_
      rw [setCaller_self, ‹engine.callers number = _›]
      rfl

theorem stepWorker_slot {worker later : Worker}
    (taken : engine.stepWorker number circumstances = some (next, events))
    (found : engine.workers[number]? = some worker)
    (there : next.workers[number]? = some later) :
    LockStep (.worker number) engine.slotHolder next.slotHolder worker.position.holdsSlot
      later.position.holdsSlot := by
  obtain ⟨after, advance, present, effect⟩ := stepWorker_cases taken found
  cases Option.some.inj (present.symm.trans there)
  cases effect with
  | own stream tally change settled =>
      refine .keep (by simp) ?_
      cases advance with
      | retiring standing given queue =>
          rw [settled _ _ standing] at given
          simp [stepRetirement] at given
      | _ =>
          rw [‹worker.position = _›]
          rfl
  | retiring standing given =>
      rename_i retirement step fault changed
      obtain ⟨mailbox, _, kept⟩ := stepRetirement_worker given found
      have stands : later.position = .retiring step fault := by
        have found_later := Option.some.inj (there.symm.trans (by simp [kept]; rfl))
        rw [found_later]
      rw [standing, stands]
      simpa [Position.holdsSlot] using stepRetirement_lock given

/-! ## The holders agree with the positions -/

/-- A worker that makes no step holds the slot lock as before. -/
theorem holdsSlot_worker_iff
    (made : engine.move? move = some (next, events))
    (other : ∀ circumstances, move ≠ .step (.worker number) circumstances) :
    next.HoldsSlot (.worker number) ↔ engine.HoldsSlot (.worker number) := by
  constructor
  · rintro ⟨later, found, holds⟩
    cases present : engine.workers[number]? with
    | none =>
        obtain ⟨_, _, _, _, _, _, rfl⟩ := move?_newcomer made present found
        cases holds
    | some worker =>
        obtain ⟨after, there, ⟨_, own, _⟩ | ⟨_, touched⟩⟩ := move?_worker made present
        · exact absurd own (other _)
        · cases Option.some.inj (there.symm.trans found)
          exact ⟨worker, present, touched.position ▸ holds⟩
  · rintro ⟨worker, present, holds⟩
    obtain ⟨after, there, ⟨_, own, _⟩ | ⟨_, touched⟩⟩ := move?_worker made present
    · exact absurd own (other _)
    · exact ⟨after, there, touched.position.symm ▸ holds⟩

theorem holdsSlot_iff_of_found {worker : Worker}
    (found : engine.workers[number]? = some worker) :
    engine.HoldsSlot (.worker number) ↔ worker.position.holdsSlot = true := by
  simp [HoldsSlot, found]

/-- Moving a caller between two places that hold the same locks keeps the agreement. -/
theorem Locked.setCaller {activity : Activity} (locked : engine.Locked)
    (lifecycle : activity.holdsLifecycle = (engine.callers number).holdsLifecycle)
    (slot : activity.holdsSlot = (engine.callers number).holdsSlot) :
    (engine.setCaller number activity).Locked := by
  constructor
  · intro other
    rw [setCaller_lifecycleHolder, locked.lifecycle, setCaller_callers]
    split
    · rename_i same
      rw [same, lifecycle]
    · rfl
  · intro actor
    rw [setCaller_slotHolder, locked.slot]
    cases actor with
    | worker other => rfl
    | caller other =>
        simp only [HoldsSlot, setCaller_callers]
        split
        · rename_i same
          rw [same, slot]
        · rfl

theorem Locked.stepCaller (locked : engine.Locked)
    (taken : engine.stepCaller number circumstances = some (next, events)) : next.Locked := by
  constructor
  · refine (stepCaller_lifecycle taken).agrees locked.lifecycle ?_ Iff.rfl Iff.rfl
    intro other different
    rw [stepCaller_others taken different]
  · refine (stepCaller_slot taken).agrees locked.slot ?_ Iff.rfl Iff.rfl
    intro other different
    cases other with
    | caller other =>
        have apart : other ≠ number := fun same => different (by rw [same])
        simp only [HoldsSlot, stepCaller_others taken apart]
    | worker other =>
        have made : engine.move? (.step (.caller number) circumstances) = some (next, events) :=
          taken
        exact holdsSlot_worker_iff made (by simp)

theorem Locked.stepWorker (locked : engine.Locked)
    (taken : engine.stepWorker number circumstances = some (next, events)) : next.Locked := by
  obtain ⟨callers, holder, _⟩ := stepWorker_frame taken
  constructor
  · intro other
    rw [holder, callers]
    exact locked.lifecycle other
  · obtain ⟨worker, present⟩ := exists_of_stepWorker taken
    obtain ⟨later, _, there, _⟩ := stepWorker_cases taken present
    refine (stepWorker_slot taken present there).agrees locked.slot ?_
      (holdsSlot_iff_of_found present) (holdsSlot_iff_of_found there)
    intro other different
    cases other with
    | caller other => simp only [HoldsSlot, callers]
    | worker other =>
        have made : engine.move? (.step (.worker number) circumstances) =
            some (next, events) := taken
        refine holdsSlot_worker_iff made ?_
        intro _ same
        cases same
        exact different rfl

theorem Locked.kept (locked : engine.Locked)
    (made : engine.move? move = some (next, events)) : next.Locked := by
  cases move?_cases made with
  | call idle =>
      rename_i call
      apply locked.setCaller
      · rw [idle]
        cases call <;> rfl
      · rw [idle]
        cases call <;> rfl
  | failSpawn standing vacant =>
      apply locked.setCaller
      · rw [standing]
        rfl
      · rw [standing]
        rfl
  | setReportPath => exact ⟨locked.lifecycle, locked.slot⟩
  | caller taken => exact locked.stepCaller taken
  | worker taken => exact locked.stepWorker taken

/-- Two callers that stand where the lifecycle lock is held are the same. -/
theorem Locked.sole {other : Nat} (locked : engine.Locked)
    (holds : (engine.callers number).holdsLifecycle = true)
    (alike : (engine.callers other).holdsLifecycle = true) : other = number := by
  have holder := (locked.lifecycle number).mpr holds
  have same := (locked.lifecycle other).mpr alike
  exact Option.some.inj (same.symm.trans holder)

/-- A part of what the holder of the lifecycle lock is doing. -/
def held {α : Type} (engine : Engine) (part : Activity → Option α) : Option α :=
  engine.lifecycleHolder.bind fun number => part (engine.callers number)

section Held

variable {α : Type} {part : Activity → Option α} {activity : Activity}

theorem Locked.held_eq (locked : engine.Locked)
    (standing : engine.callers number = activity)
    (holds : activity.holdsLifecycle = true) : engine.held part = part activity := by
  subst standing
  have holder := (locked.lifecycle number).mpr holds
  simp [held, holder]

theorem held_setCaller (same : part activity = part (engine.callers number)) :
    (engine.setCaller number activity).held part = engine.held part := by
  have alike : ∀ other, part ((engine.setCaller number activity).callers other) =
      part (engine.callers other) := by
    intro other
    by_cases own : other = number
    · rw [own, setCaller_self, same]
    · simp [own]
  simp only [held, alike, setCaller_lifecycleHolder]

/-- A step that leaves the part of its own caller as it is leaves the holder's part as it
is, even if the lock changes hands. -/
theorem Locked.held_kept (locked : engine.Locked)
    (outside : ∀ activity, activity.holdsLifecycle = false → part activity = none)
    (taken : engine.stepCaller number circumstances = some (next, events))
    (same : part (next.callers number) = part (engine.callers number)) :
    next.held part = engine.held part := by
  have alike : ∀ other, part (next.callers other) = part (engine.callers other) := by
    intro other
    by_cases own : other = number
    · rw [own, same]
    · rw [stepCaller_others taken own]
  cases stepCaller_lifecycle taken with
  | keep holder held => simp only [Engine.held, holder, alike]
  | take free holder before after =>
      have empty : part (next.callers number) = none := by
        rw [same]
        exact outside _ before
      simp [held, free, holder, empty]
  | release free before after =>
      have empty : part (engine.callers number) = none := by
        rw [← same]
        exact outside _ after
      simp [held, free, (locked.lifecycle number).mpr before, empty]

end Held

theorem stepRetirement_of_holdsSlot {actor : Actor} {retirement : Retirement}
    (holds : retirement.holdsSlot = true) (circumstances : Circumstances) :
    ∃ later changed,
      engine.stepRetirement actor circumstances retirement = some (later, changed) := by
  cases retirement with
  | claiming generation =>
      simp only [stepRetirement]
      split
      · split
        · exact ⟨_, _, rfl⟩
        · exact ⟨_, _, rfl⟩
      · exact ⟨_, _, rfl⟩
  | accounting run => exact ⟨_, _, rfl⟩
  | unlocking => exact ⟨_, _, rfl⟩
  | locking generation => cases holds
  | done => cases holds

theorem stepCaller_of_holdsSlot (holds : (engine.callers number).holdsSlot = true)
    (circumstances : Circumstances) :
    (engine.stepCaller number circumstances).isSome = true := by
  cases standing : engine.callers number with
  | startDeciding context =>
      simp only [Engine.stepCaller, standing]
      split <;> rfl
  | interruptSending reason notified =>
      simp only [Engine.stepCaller, standing]
      split
      · split <;> rfl
      · rfl
  | stopReleasing run => cases run <;> simp [Engine.stepCaller, standing]
  | closeReleasing active => cases active <;> simp [Engine.stepCaller, standing]
  | retiring retirement =>
      rw [standing] at holds
      have unfinished : retirement ≠ .done := by
        rintro rfl
        cases holds
      obtain ⟨later, changed, given⟩ :=
        @stepRetirement_of_holdsSlot engine (.caller number) _ holds circumstances
      simp [Engine.stepCaller, standing, given]
  | startFilling generation worker => simp [Engine.stepCaller, standing]
  | startReleasing result => simp [Engine.stepCaller, standing]
  | stopTaking => simp [Engine.stepCaller, standing]
  | interruptReleasing notified delivered => simp [Engine.stepCaller, standing]
  | closeLooking => simp [Engine.stepCaller, standing]
  | _ =>
      rw [standing] at holds
      cases holds

theorem stepWorker_of_holdsSlot (holds : engine.HoldsSlot (.worker number))
    (circumstances : Circumstances) :
    (engine.stepWorker number circumstances).isSome = true := by
  obtain ⟨worker, found, held⟩ := holds
  cases standing : worker.position with
  | retiring retirement fault =>
      rw [standing] at held
      have unfinished : retirement ≠ .done := by
        rintro rfl
        cases held
      obtain ⟨later, changed, given⟩ :=
        @stepRetirement_of_holdsSlot engine (.worker number) _ held circumstances
      simp [Engine.stepWorker, found, standing, given]
  | _ =>
      rw [standing] at held
      cases held

/-- Whoever holds the slot lock can make its next step. -/
theorem Locked.holder_steps {actor : Actor} (locked : engine.Locked)
    (held : engine.slotHolder = some actor) (circumstances : Circumstances) :
    (engine.step actor circumstances).isSome = true := by
  have holds := (locked.slot actor).mp held
  cases actor with
  | caller number => exact stepCaller_of_holdsSlot holds circumstances
  | worker number => exact stepWorker_of_holdsSlot holds circumstances

end Engine

end MiningAgent
