import MiningAgent.Proofs.Run.Ascent
import MiningAgent.Proofs.Run.Lifecycle
import MiningAgent.Proofs.Run.Requests
import MiningAgent.Proofs.Run.Thinning

/-!
# Refused and accepted notifications

A refused notification leaves nothing behind but log entries and the number of peer blocks.
An accepted one sends one interrupt to the run in the slot, if there is one, and none otherwise.
-/

namespace MiningAgent

/-- How many steps a caller makes until it gives back the slot lock. -/
def Activity.slotSteps : Activity → Nat
  | .startDeciding _ => 3
  | .startFilling _ _ => 2
  | .startReleasing _ => 1
  | .stopTaking => 2
  | .stopReleasing _ => 1
  | .interruptSending _ _ => 2
  | .interruptReleasing _ _ => 1
  | .closeLooking => 2
  | .closeReleasing _ => 1
  | _ => 0

namespace Engine

/-- A look at the slot puts one interrupt into the queue of the run that is there, and nothing
into any queue if there is none. -/
inductive Moment.Notifies (moment : Moment) (reason : Interruption) : Bool → Prop
  | interrupts {run : Run} {worker : Worker}
      (active : moment.before.slot.active = some run)
      (found : moment.before.workers[run.worker]? = some worker)
      (alive : worker.position ≠ .exited)
      (sent : moment.after.workers = moment.before.workers.modify run.worker fun worker =>
        { worker with mailbox := worker.mailbox.send (.interrupt reason) }) :
      Notifies moment reason true
  | idle (vacant : moment.before.slot.active = none)
      (same : moment.after.workers = moment.before.workers) : Notifies moment reason false

/-- If the moment is a step of the caller, it changes no queue. -/
def Moment.Spares (moment : Moment) (number : Nat) : Prop :=
  ∀ circumstances, moment.move = .step (.caller number) circumstances →
    moment.after.workers = moment.before.workers

/-- One step of a caller looks at the slot, and no other changes a queue. -/
def NotifiesOnce (history : History) (number : Nat) (reason : Interruption) (delivered : Bool) :
    Prop :=
  ∃ before sending after, history = before ++ sending :: after ∧
    (∃ circumstances, sending.move = .step (.caller number) circumstances) ∧
    sending.Notifies reason delivered ∧
    ∀ moment ∈ before ++ after, moment.Spares number

/-- A caller is behind an accepted notification that has not returned. -/
inductive Notifying (history : History) (engine : Engine) (number : Nat)
    (reason : Interruption) : Prop
  | claiming (standing : engine.callers number = .interruptClaiming reason true)
      (spares : ∀ moment ∈ history, moment.Spares number) : Notifying history engine number reason
  | sending (standing : engine.callers number = .interruptSending reason true)
      (spares : ∀ moment ∈ history, moment.Spares number) : Notifying history engine number reason
  | releasing {delivered : Bool}
      (standing : engine.callers number = .interruptReleasing true delivered)
      (notifies : NotifiesOnce history number reason delivered) :
      Notifying history engine number reason

variable {start finish engine next : Engine} {history : History} {moment : Moment}
  {move : Move} {events : List Event} {number : Nat} {reason : Interruption}
  {circumstances : Circumstances} {result : Result} {delivered : Bool}

/-- The worker of the run in the slot is alive. -/
theorem Tended.lives_of_active {run : Run} (tended : engine.Tended)
    (active : engine.slot.active = some run) : engine.Lives run.worker := by
  have charged := tended.sound.inCharge_of_active active
  have inside := tended.sound.present _ charged
  have found : engine.workers[run.worker]? = some engine.workers[run.worker] :=
    List.getElem?_eq_getElem inside
  refine ⟨_, found, ?_⟩
  rcases tended.attended _ _ found with unstopped | ⟨caller, joined, standing, _⟩ | ⟨_, uncharged⟩
  · intro exited
    have working := unstopped.working
    rw [exited] at working
    cases working
  · have vacant := tended.sound.vacant caller (by rw [standing]; rfl)
    rw [vacant] at active
    cases active
  · exact absurd charged uncharged

theorem spares_append (spares : ∀ moment ∈ history, moment.Spares number)
    (spared : moment.Spares number) : ∀ earlier ∈ history ++ [moment], earlier.Spares number :=
  List.forall_mem_append.mpr ⟨spares, List.forall_mem_singleton.mpr spared⟩

theorem NotifiesOnce.extend (notifies : NotifiesOnce history number reason delivered)
    (spared : moment.Spares number) :
    NotifiesOnce (history ++ [moment]) number reason delivered := by
  obtain ⟨before, sending, after, rfl, own, sends, spares⟩ := notifies
  refine ⟨before, sending, after ++ [moment], by simp, own, sends, ?_⟩
  rw [← List.append_assoc]
  exact spares_append spares spared

theorem Notifying.still (notifying : Notifying history engine number reason)
    (same : next.callers number = engine.callers number) (spared : moment.Spares number) :
    Notifying (history ++ [moment]) next number reason := by
  cases notifying with
  | claiming standing spares =>
      exact .claiming (same.trans standing) (spares_append spares spared)
  | sending standing spares => exact .sending (same.trans standing) (spares_append spares spared)
  | releasing standing notifies => exact .releasing (same.trans standing) (notifies.extend spared)

/-- What the next step of the caller makes of its notification. -/
theorem Notifying.step (tended : engine.Tended)
    (notifying : Notifying history engine number reason)
    (taken : engine.stepCaller number circumstances = some (next, events)) :
    Notifying (history ++ [⟨engine, .step (.caller number) circumstances, events, next⟩]) next
        number reason ∧ (∀ result, .returned result ∉ events) ∨
      ∃ delivered, NotifiesOnce history number reason delivered ∧ next.workers = engine.workers ∧
        events = [.returned (.noted true delivered)] := by
  cases notifying with
  | claiming standing spares =>
      left
      simp only [stepCaller, standing, takeSlot] at taken
      split at taken
      · cases taken
        refine ⟨.sending (setCaller_self _ _ _) (spares_append spares ?_), by simp⟩
        intro _ _
        rfl
      · cases taken
  | sending standing spares =>
      left
      have once (delivered : Bool) (notifies : Moment.Notifies
          ⟨engine, .step (.caller number) circumstances, events, next⟩ reason delivered) :
          NotifiesOnce (history ++ [⟨engine, .step (.caller number) circumstances, events, next⟩])
            number reason delivered :=
        ⟨history, _, [], rfl, ⟨_, rfl⟩, notifies, by simpa using spares⟩
      cases active : engine.slot.active with
      | none =>
          simp only [stepCaller, standing, active] at taken
          cases taken
          exact ⟨.releasing (setCaller_self _ _ _) (once false (.idle active rfl)), by simp⟩
      | some run =>
          obtain ⟨worker, found, alive⟩ := tended.lives_of_active active
          have present : engine.receives run.worker = true := by simp [receives, found, alive]
          simp only [stepCaller, standing, active, present, if_true] at taken
          cases taken
          refine ⟨.releasing (setCaller_self _ _ _) (once true (.interrupts active found alive ?_)),
            by simp⟩
          simp [send, present, changeWorker]
  | releasing standing notifies =>
      right
      simp only [stepCaller, standing, finish] at taken
      cases taken
      exact ⟨_, notifies, rfl, rfl⟩

theorem Notifying.busy (notifying : Notifying history engine number reason) :
    engine.callers number ≠ .idle ∧ ∀ context, engine.callers number ≠ .startDeciding context := by
  cases notifying with
  | claiming standing spares => simp [standing]
  | sending standing spares => simp [standing]
  | releasing standing notifies => simp [standing]

/-- A move that is not the caller's own step leaves its notification where it is. -/
theorem Notifying.others (notifying : Notifying history engine number reason)
    (made : engine.move? move = some (next, events))
    (others : ∀ circumstances, move ≠ .step (.caller number) circumstances) :
    Notifying (history ++ [⟨engine, move, events, next⟩]) next number reason := by
  obtain ⟨busy, decided⟩ := notifying.busy
  refine notifying.still (move?_callers made ?_) ?_
  · intro about
    cases move?_cases made with
    | call idle =>
        cases about
        exact busy idle
    | failSpawn standing vacant =>
        cases about
        exact decided _ standing
    | setReportPath => cases about
    | caller taken =>
        cases about
        exact others _ rfl
    | worker taken => cases about
  · intro circumstances own
    exact absurd own (others circumstances)

theorem Notifying.kept (tended : engine.Tended)
    (notifying : Notifying history engine number reason)
    (made : engine.move? move = some (next, events))
    (silent : ∀ result, ¬ Moment.Returns ⟨engine, move, events, next⟩ number result) :
    Notifying (history ++ [⟨engine, move, events, next⟩]) next number reason := by
  by_cases own : ∃ circumstances, move = .step (.caller number) circumstances
  · obtain ⟨circumstances, rfl⟩ := own
    rcases notifying.step tended made with ⟨still, _⟩ | ⟨delivered, _, _, rfl⟩
    · exact still
    · exact absurd ⟨⟨circumstances, rfl⟩, List.mem_singleton_self _⟩ (silent _)
  · exact notifying.others made fun circumstances same => own ⟨circumstances, same⟩

theorem notifying_of_accepted {announcement : Announcement}
    (taken : engine.stepCaller number circumstances = some (next, events))
    (standing : engine.callers number = .updating reason announcement)
    (accepted : engine.tracker.judge announcement = .accepted) :
    Notifying [] next number reason ∧ next.workers = engine.workers := by
  cases stepCaller_cases taken with
  | updating_accepted stands _ logged =>
      cases stands.symm.trans standing
      exact ⟨.claiming (setCaller_self _ _ _) (by simp), rfl⟩
  | updating_refused stands refused logged =>
      cases stands.symm.trans standing
      exact absurd accepted refused
  | _ => cases (‹engine.callers number = _›).symm.trans standing

theorem Notifying.along (tended : engine.Tended)
    (notifying : Notifying history engine number reason) {late : History}
    (reached : engine.Reaches late finish)
    (silent : ∀ moment ∈ late, ∀ result, ¬ moment.Returns number result) :
    Notifying (history ++ late) finish number reason ∧ finish.Tended := by
  induction reached with
  | refl => exact ⟨by simpa using notifying, tended⟩
  | @move earlier _ _ _ _ reached made inductionHypothesis =>
      obtain ⟨still, kept⟩ := inductionHypothesis fun moment member =>
        silent moment (List.mem_append_left _ member)
      refine ⟨?_, kept.kept made⟩
      rw [← List.append_assoc]
      exact still.kept kept made (silent _ (by simp))

theorem Notifying.returns (tended : moment.before.Tended)
    (notifying : Notifying history moment.before number reason)
    (made : moment.before.move? moment.move = some (moment.after, moment.events))
    (returns : moment.Returns number result) :
    ∃ delivered, result = .noted true delivered ∧ NotifiesOnce history number reason delivered ∧
      moment.after.workers = moment.before.workers := by
  obtain ⟨⟨circumstances, own⟩, shown⟩ := returns
  rw [own] at made
  rcases notifying.step tended made with ⟨_, silent⟩ | ⟨delivered, notifies, same, events⟩
  · exact absurd shown (silent result)
  · rw [events] at shown
    cases List.mem_singleton.mp shown
    exact ⟨delivered, rfl, notifies, same⟩

/-! ## The way to the end of a notification -/

theorem stepCaller_slotSteps (sound : engine.Sound)
    (taken : engine.stepCaller number circumstances = some (next, events))
    (holds : (engine.callers number).holdsSlot = true) :
    (next.callers number).slotSteps < (engine.callers number).slotSteps := by
  cases stepCaller_cases taken with
  | retiring standing given => exact (sound.not_retiring standing).elim
  | startDeciding standing vacant | startDeciding_active standing active
  | startFilling standing | startReleasing standing | stopTaking standing
  | stopReleasing_none standing | stopReleasing standing
  | interruptSending standing active present | interruptSending_failed standing unheard
  | interruptReleasing standing | closeLooking standing | closeReleasing standing
  | closeReleasing_idle standing =>
      rw [setCaller_self, standing]
      simp [Activity.slotSteps]
  | _ =>
      rw [‹engine.callers number = _›] at holds
      cases holds

/-- The holder of the slot lock is a caller. -/
theorem Tended.slotHolder_caller {actor : Actor} (tended : engine.Tended)
    (held : engine.slotHolder = some actor) :
    ∃ caller, actor = .caller caller ∧ (engine.callers caller).holdsSlot = true := by
  have holds := (tended.sound.locked.slot actor).mp held
  cases actor with
  | caller caller => exact ⟨caller, rfl, holds⟩
  | worker number =>
      obtain ⟨worker, found, retires⟩ := holds
      have faultless := tended.faultless number worker found
      cases standing : worker.position with
      | retiring retirement fault =>
          rw [standing] at faultless
          cases faultless
      | _ =>
          rw [standing] at retires
          cases retires

/-- A caller gets to the end of its call by steps of callers alone: nobody has to begin a call,
and no worker has to move. -/
def CanReturn (engine : Engine) (number : Nat) : Prop :=
  ∃ more returning last, engine.Reaches (more ++ [returning]) last ∧
    (∀ moment ∈ more, ∀ result, ¬ moment.Returns number result) ∧
    (∃ result, returning.Returns number result) ∧
    ∀ moment ∈ more ++ [returning], ∃ caller circumstances,
      moment.move = .step (.caller caller) circumstances

theorem CanReturn.prepend {caller : Nat} (returns : CanReturn next number)
    (taken : engine.stepCaller caller circumstances = some (next, events))
    (silent : caller = number → ∀ result, .returned result ∉ events) :
    CanReturn engine number := by
  obtain ⟨more, returning, last, reached, quiet, shown, steps⟩ := returns
  have made : engine.move? (.step (.caller caller) circumstances) = some (next, events) := taken
  refine ⟨⟨engine, .step (.caller caller) circumstances, events, next⟩ :: more, returning, last,
    (reaches_single made).append reached, ?_, shown, ?_⟩
  · intro moment member
    rcases List.mem_cons.mp member with rfl | old
    · rintro result ⟨⟨_, own⟩, returned⟩
      cases own
      exact silent rfl result returned
    · exact quiet moment old
  · intro moment member
    rcases List.mem_cons.mp member with rfl | old
    · exact ⟨caller, circumstances, rfl⟩
    · exact steps moment old

theorem canReturn_of_releasing
    (standing : engine.callers number = .interruptReleasing true delivered) :
    CanReturn engine number := by
  have taken : engine.stepCaller number calm =
      some (engine.releaseSlot.setCaller number .idle, [.returned (.noted true delivered)]) := by
    simp [stepCaller, standing, finish]
  have made : engine.move? (.step (.caller number) calm) =
      some (engine.releaseSlot.setCaller number .idle, [.returned (.noted true delivered)]) := taken
  refine ⟨[], _, _, reaches_single made, by simp, ⟨_, ⟨_, rfl⟩, List.mem_singleton_self _⟩, ?_⟩
  intro moment member
  cases List.mem_singleton.mp member
  exact ⟨number, calm, rfl⟩

theorem canReturn_of_sending (standing : engine.callers number = .interruptSending reason true) :
    CanReturn engine number := by
  have holds : (engine.callers number).holdsSlot = true := by
    rw [standing]
    rfl
  obtain ⟨⟨next, events⟩, taken⟩ := Option.isSome_iff_exists.mp
    (stepCaller_of_holdsSlot holds calm)
  cases stepCaller_cases taken with
  | interruptSending stands active present =>
      cases stands.symm.trans standing
      exact (canReturn_of_releasing (setCaller_self _ _ _)).prepend taken (by simp)
  | interruptSending_failed stands unheard =>
      cases stands.symm.trans standing
      exact (canReturn_of_releasing (setCaller_self _ _ _)).prepend taken (by simp)
  | _ => cases (‹engine.callers number = _›).symm.trans standing

theorem canReturn_of_claiming (free : engine.slotHolder = none)
    (standing : engine.callers number = .interruptClaiming reason true) :
    CanReturn engine number := by
  have taken : engine.stepCaller number calm =
      some (({ engine with slotHolder := some (.caller number) }).setCaller number
        (.interruptSending reason true), []) := by
    simp [stepCaller, standing, takeSlot, free]
  exact (canReturn_of_sending (setCaller_self _ _ _)).prepend taken (by simp)

/-- Whoever holds the slot lock gives it back after some steps of its own. -/
theorem Tended.canReturn_of_held {holder : Nat} (tended : engine.Tended)
    (held : engine.slotHolder = some (.caller holder))
    (standing : engine.callers number = .interruptClaiming reason true) :
    CanReturn engine number := by
  induction steps : (engine.callers holder).slotSteps using Nat.strongRecOn
    generalizing engine with
  | ind left inductionHypothesis =>
      have holds := (tended.sound.locked.slot (.caller holder)).mp held
      have apart : number ≠ holder := by
        rintro rfl
        simp only [HoldsSlot, standing] at holds
        cases holds
      obtain ⟨⟨next, events⟩, taken⟩ := Option.isSome_iff_exists.mp
        (stepCaller_of_holdsSlot holds calm)
      have fewer := stepCaller_slotSteps tended.sound taken holds
      have made : engine.move? (.step (.caller holder) calm) = some (next, events) := taken
      have waits : next.callers number = .interruptClaiming reason true :=
        (stepCaller_others taken apart).trans standing
      have returns : CanReturn next number := by
        cases stepCaller_slot taken with
        | keep same _ =>
            exact inductionHypothesis _ (steps ▸ fewer) (tended.kept made) (same.trans held) waits
              rfl
        | take free _ _ _ =>
            rw [held] at free
            cases free
        | release free _ _ => exact canReturn_of_claiming free waits
      exact returns.prepend taken fun same => absurd same.symm apart

theorem Notifying.canReturn (tended : engine.Tended)
    (notifying : Notifying history engine number reason) : CanReturn engine number := by
  cases notifying with
  | claiming standing spares =>
      cases held : engine.slotHolder with
      | none => exact canReturn_of_claiming held standing
      | some actor =>
          obtain ⟨holder, rfl, _⟩ := tended.slotHolder_caller held
          exact tended.canReturn_of_held held standing
  | sending standing spares => exact canReturn_of_sending standing
  | releasing standing notifies => exact canReturn_of_releasing standing

section Session

variable {agent : Agent} {stream : Generator} {tally : Tally} {path : Option String}

/-- Any notifications of a history that the tracker refuses can be left out of it.  Everything
that remains happens as before, up to the surplus: the callers that are still inside a left-out
notification, and the peer blocks that only the original agent counted.  A notification that
the tracker accepts looks at the slot once, and sends one interrupt if a run is there. -/
theorem refused_notifications_invisible :
    (∀ (marked : List (Moment × Bool)) finish,
      (created agent stream .initial tally path).Reaches (marked.map Prod.fst) finish →
      (∀ moment ∈ (thin marked).dropped, ∀ reason announcement,
        moment.activity? = some (.updating reason announcement) →
          moment.before.tracker.Refuses announcement) →
      ∃ history last,
        (created agent stream .initial tally path).Reaches history last ∧
        finish = last.withSurplus (thin marked).surplus ∧
        List.Forall₂ (fun pair moment => pair.1 = moment.withSurplus pair.2) (thin marked).kept
          history ∧
        (∀ moment ∈ (thin marked).dropped, ∀ event ∈ moment.events,
          (∃ entry, event = .logged entry) ∨ event = .returned (.noted false false)) ∧
        ((∀ number, (thin marked).surplus.inside number = none) →
          (thin marked).surplus.counted = (thin marked).dropped.countP Moment.tells)) ∧
      ∀ early accepting late finish number reason announcement,
        (created agent stream .initial tally path).Reaches (early ++ accepting :: late) finish →
        (∃ circumstances, accepting.move = .step (.caller number) circumstances) →
        accepting.before.callers number = .updating reason announcement →
        ¬ accepting.before.tracker.Refuses announcement →
        accepting.after.workers = accepting.before.workers ∧
          (∀ during returning rest result, late = during ++ returning :: rest →
            (∀ moment ∈ during, ∀ result, ¬ moment.Returns number result) →
            returning.Returns number result →
            ∃ delivered, result = .noted true delivered ∧
              NotifiesOnce during number reason delivered ∧
              returning.after.workers = returning.before.workers) ∧
          ((∀ moment ∈ late, ∀ result, ¬ moment.Returns number result) →
            CanReturn finish number) := by
  constructor
  · intro marked finish reached refused
    obtain ⟨history, last, thins⟩ := reached.thins refused
    refine ⟨history, last, thins.reached, thins.finish, thins.kept, thins.silent, ?_⟩
    intro outside
    obtain ⟨pending, _, member, calls⟩ := thins.told
    have nobody : pending = [] := by
      apply List.eq_nil_iff_forall_not_mem.mpr
      intro number present
      rw [member, outside] at present
      cases present
    rw [nobody] at calls
    exact calls
  · rintro early accepting late finish number reason announcement reached ⟨circumstances, own⟩
      standing accepted
    obtain ⟨before, made, after⟩ := reached.cut
    have tended : accepting.after.Tended := before.tended.kept made
    rw [own] at made
    have taken : accepting.before.stepCaller number circumstances =
        some (accepting.after, accepting.events) := made
    rw [Tracker.refuses_iff, not_not] at accepted
    obtain ⟨notifying, same⟩ := notifying_of_accepted taken standing accepted
    refine ⟨same, ?_, ?_⟩
    · rintro during returning rest result rfl silent returns
      obtain ⟨between, madeThere, _⟩ := after.cut
      obtain ⟨there, tendedThere⟩ := notifying.along tended between silent
      exact there.returns tendedThere madeThere returns
    · intro silent
      obtain ⟨there, tendedThere⟩ := notifying.along tended after silent
      exact there.canReturn tendedThere

end Session

/-- A worker waits out its delay when the agent is told of a peer block. -/
def beforeAcceptance : List Move :=
  .call 0 (.start (.ofWallet "")) :: steps (.caller 0) 7 ++ steps (.worker 0) 4 ++
    .call 1 (.peerBlock ⟨7, 3⟩) :: steps (.caller 1) 1

def acceptance : Moment := (small.record beforeAcceptance).2.momentOf (.step (.caller 1) calm)

def acceptanceReturns : Moment :=
  (acceptance.after.record (steps (.caller 1) 2)).2.momentOf (.step (.caller 1) calm)

/-- A peer block of the same height is counted between two steps of an export, and a
difficulty of zero is announced. -/
def staleMoves : List Move :=
  .call 2 (.peerBlock ⟨9, 3⟩) :: steps (.caller 2) 1 ++ .call 1 .export :: steps (.caller 1) 3 ++
    steps (.caller 2) 1 ++ steps (.caller 1) 3 ++ .call 2 (.difficultyChange ⟨0, 8⟩) ::
    steps (.caller 2) 1 ++ steps (.worker 0) 3

def staleHistory : List (Moment × Bool) :=
  (((small.record beforeAcceptance).1 ++ acceptance ::
      ((acceptance.after.record (steps (.caller 1) 2)).1 ++ [acceptanceReturns])).map (·, false)) ++
    (acceptanceReturns.after.record staleMoves).1.map (·, true)

theorem stale_notifications_left_out :
    (∃ history last, small.Reaches history last ∧
      (acceptanceReturns.after.record staleMoves).2 =
        last.withSurplus (thin staleHistory).surplus ∧
      List.Forall₂ (fun pair moment => pair.1 = moment.withSurplus pair.2)
        (thin staleHistory).kept history) ∧
      (thin staleHistory).dropped.length = 5 ∧ (thin staleHistory).surplus.counted = 1 ∧
      acceptanceReturns.Returns 1 (.noted true true) ∧
      NotifiesOnce (acceptance.after.record (steps (.caller 1) 2)).1 1 .peerBlock true := by
  obtain ⟨leaves, sends⟩ := @refused_notifications_invisible small.agent small.stream small.tally
    none
  have accepts : (small.record beforeAcceptance).2.Reaches [acceptance] acceptance.after :=
    reaches_momentOf (by decide)
  have returns : (acceptance.after.record (steps (.caller 1) 2)).2.Reaches [acceptanceReturns]
      acceptanceReturns.after := reaches_momentOf (by decide)
  have told : small.Reaches ((small.record beforeAcceptance).1 ++ acceptance ::
      ((acceptance.after.record (steps (.caller 1) 2)).1 ++ [acceptanceReturns]))
      acceptanceReturns.after :=
    (reaches_record beforeAcceptance).append
      (accepts.append ((reaches_record (steps (.caller 1) 2)).append returns))
  have reached : small.Reaches (staleHistory.map Prod.fst)
      (acceptanceReturns.after.record staleMoves).2 := by
    have whole := told.append (reaches_record staleMoves)
    simpa [staleHistory, Function.comp_def] using whole
  have quiet : (thin staleHistory).dropped.all (fun moment => !moment.accepts) = true := by
    decide
  refine ⟨?_, by decide, by decide, ?_⟩
  · obtain ⟨history, last, possible, same, kept, _, _⟩ := leaves staleHistory _ reached (by
      intro moment member reason announcement updates
      have refused := List.all_eq_true.mp quiet moment member
      rw [Tracker.refuses_iff]
      intro accepted
      simp [Moment.accepts, updates, accepted] at refused)
    exact ⟨history, last, possible, same, kept⟩
  · have shown : acceptanceReturns.Returns 1 (.noted true true) :=
      ⟨⟨calm, rfl⟩, List.mem_singleton_self _⟩
    obtain ⟨_, once, _⟩ := sends (small.record beforeAcceptance).1 acceptance _ _ 1 .peerBlock
      ⟨7, 3⟩ told ⟨calm, rfl⟩ rfl (by rw [Tracker.refuses_iff]; decide)
    have between : (acceptance.after.record (steps (.caller 1) 2)).1.flatMap Moment.events =
        [.logged (.interruptSent .peerBlock)] := rfl
    have silent : ∀ moment ∈ (acceptance.after.record (steps (.caller 1) 2)).1,
        ∀ result, ¬ moment.Returns 1 result := by
      rintro moment member result ⟨_, returned⟩
      have among := List.mem_flatMap.mpr ⟨moment, member, returned⟩
      rw [between] at among
      cases List.mem_singleton.mp among
    obtain ⟨delivered, same, notifies, _⟩ := once _ acceptanceReturns [] _ rfl silent shown
    cases same
    exact ⟨shown, notifies⟩

end Engine

end MiningAgent
