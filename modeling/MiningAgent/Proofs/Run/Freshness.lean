import MiningAgent.Proofs.Run.Charge

/-!
# Notifications and stale discoveries

A block goes by the reading of the tracker with which its iteration began.  Once an
interrupt is queued, an iteration that is not past its last look at the queue comes to
nothing: the worker has to read the tracker again before it can announce.
-/

namespace MiningAgent

theorem heightAbove_toNat (height : UInt64) :
    (heightAbove height).toNat = min (height.toNat + 1) 18446744073709551615 := by
  have bound := height.toNat_lt
  unfold heightAbove
  split
  · rename_i largest
    rw [largest]
    rfl
  · rename_i below
    have apart : height.toNat ≠ 18446744073709551615 := by
      intro same
      apply below
      exact UInt64.toNat.inj same
    rw [UInt64.toNat_add]
    have one : (1 : UInt64).toNat = 1 := rfl
    omega

theorem heightAbove_mono {low high : UInt64} (ordered : low.toNat ≤ high.toNat) :
    min (low.toNat + 1) 18446744073709551615 ≤ (heightAbove high).toNat := by
  rw [heightAbove_toNat]
  omega

/-- What an iteration has read, from its reading to its last look at the queue. -/
def Position.seen? : Position → Option Announcement
  | .drawing seen => some seen
  | .counting task => some task.seen
  | .waiting task false .listening => some task.seen
  | .waiting task false .timedOut => some task.seen
  | .waiting task false (.over .expired) => some task.seen
  | .confirming task => some task.seen
  | _ => none

/-- Whether a worker is past its last look at the queue and about to announce. -/
def Position.announces : Position → Bool
  | .minting _ => true
  | .offering _ => true
  | _ => false

/-- The block to be announced goes by this reading. -/
def Position.Stamped (seen : Announcement) : Position → Prop
  | .minting task => task.seen = seen
  | .offering block =>
      block.difficulty = seen.difficulty ∧ block.height = heightAbove seen.height
  | _ => False

/-- Whether a worker is in a wait that confirms an earlier one and has taken no signal. -/
def Position.confirms : Position → Bool
  | .waiting _ true .listening => true
  | .waiting _ true .timedOut => true
  | .waiting _ true (.over .expired) => true
  | _ => false

/-- A wait that confirms an earlier one finds a signal, so it cannot expire. -/
structure Worker.Coherent (worker : Worker) : Prop where
  listening : ∀ task, worker.position = .waiting task true .listening →
    worker.mailbox.queue ≠ []
  timedOut : ∀ task, worker.position ≠ .waiting task true .timedOut
  expired : ∀ task, worker.position ≠ .waiting task true (.over .expired)

theorem Worker.coherent_of_position {worker : Worker}
    (elsewhere : worker.position.confirms = false) : worker.Coherent := by
  constructor
  · intro task standing
    rw [standing] at elsewhere
    cases elsewhere
  · intro task standing
    rw [standing] at elsewhere
    cases elsewhere
  · intro task standing
    rw [standing] at elsewhere
    cases elsewhere

theorem Position.attached_of_seen? {position : Position} {seen : Announcement}
    (carries : position.seen? = some seen) : position.attached = true := by
  unfold seen? at carries
  split at carries
  all_goals first | rfl | cases carries

section Advance

variable {engine : Engine} {circumstances : Circumstances} {worker later : Worker}

theorem Worker.Touched.coherent (touched : worker.Touched later) (coherent : worker.Coherent) :
    later.Coherent := by
  obtain ⟨sent, appended⟩ := touched.queue
  constructor
  · intro task standing
    rw [touched.position] at standing
    have queued := coherent.listening task standing
    rw [appended]
    exact List.append_ne_nil_of_left_ne_nil queued sent
  · intro task
    rw [touched.position]
    exact coherent.timedOut task
  · intro task
    rw [touched.position]
    exact coherent.expired task

theorem Worker.Advance.coherent (advance : worker.Advance engine circumstances later)
    (coherent : worker.Coherent) : later.Coherent := by
  cases advance with
  | taking standing unfinished queued =>
      rename_i task confirmed wait reason rest
      apply coherent_of_position
      cases confirmed <;> rfl
  | stopping standing unfinished queued =>
      rename_i task confirmed wait rest
      apply coherent_of_position
      cases confirmed <;> rfl
  | timingOut standing empty connected =>
      rename_i task confirmed
      cases confirmed with
      | true => exact absurd empty (coherent.listening task standing)
      | false => exact coherent_of_position rfl
  | expiring standing empty connected =>
      rename_i task confirmed
      cases confirmed with
      | true => exact absurd standing (coherent.timedOut task)
      | false => exact coherent_of_position rfl
  | losing standing patient empty disconnected =>
      rename_i task confirmed wait
      apply coherent_of_position
      cases confirmed <;> rfl
  | settling standing empty =>
      rename_i task confirmed last
      apply coherent_of_position
      cases confirmed <;> rfl
  | confirming_queued standing queued =>
      refine ⟨fun _ _ => queued, ?_, ?_⟩
      · intro task standing
        cases standing
      · intro task standing
        cases standing
  | _ => exact coherent_of_position rfl

/-- An iteration gets its reading from the tracker, and keeps it as long as it takes no
signal. -/
theorem Worker.Advance.seen? {seen : Announcement}
    (advance : worker.Advance engine circumstances later)
    (carries : later.position.seen? = some seen) :
    (worker.position = .reading ∧ engine.tracker.current = seen) ∨
      (worker.position ≠ .reading ∧ worker.position.seen? = some seen ∧
        later.mailbox = worker.mailbox) := by
  cases advance with
  | reading standing =>
      cases carries
      exact .inl ⟨standing, rfl⟩
  | drawing standing | counting standing | expired standing =>
      right
      rw [standing]
      exact ⟨by simp, carries, rfl⟩
  | timingOut standing empty connected | expiring standing empty connected =>
      rename_i task confirmed
      right
      rw [standing]
      cases confirmed with
      | true => cases carries
      | false => exact ⟨by simp, carries, rfl⟩
  | taking standing unfinished queued =>
      rename_i task confirmed wait reason rest
      cases confirmed <;> cases carries
  | stopping standing unfinished queued =>
      rename_i task confirmed wait rest
      cases confirmed <;> cases carries
  | losing standing patient empty disconnected =>
      rename_i task confirmed wait
      cases confirmed <;> cases carries
  | settling standing empty =>
      rename_i task confirmed last
      cases confirmed <;> cases carries
  | _ => cases carries

/-- A worker comes to announce through its last look at the queue. -/
theorem Worker.Advance.announces (advance : worker.Advance engine circumstances later)
    (coherent : worker.Coherent) (announces : later.position.announces = true) :
    (∃ task, worker.position = .confirming task ∧ worker.mailbox.queue = [] ∧
        later.position = .minting task) ∨
      (worker.position.announces = true ∧
        ∀ seen, worker.position.Stamped seen → later.position.Stamped seen) := by
  cases advance with
  | confirming standing empty => exact .inl ⟨_, standing, empty, rfl⟩
  | minting standing agentId height difficulty =>
      right
      rw [standing]
      refine ⟨rfl, ?_⟩
      rintro seen rfl
      exact ⟨difficulty, height⟩
  | confirmed standing => exact absurd standing (coherent.expired _)
  | _ => cases announces

end Advance

namespace Engine

/-- The caller's interrupt puts a signal in a queue, and will return that it did. -/
def Moment.delivers (moment : Moment) : Bool :=
  match moment.move with
  | .step (.caller number) _ =>
      match moment.before.callers number, moment.after.callers number with
      | .interruptSending _ _, .interruptReleasing _ delivered => delivered
      | _, _ => false
  | _ => false

/-- The worker looks at its queue for the last time before it announces. -/
def Moment.checks (moment : Moment) (number : Nat) : Bool :=
  match moment.position? number with
  | some (.confirming _) => true
  | _ => false

/-- The last time that a worker read the tracker. -/
def LastReading (since : History) (number : Nat) (reading : Moment) : Prop :=
  ∃ early late, since = early ++ reading :: late ∧
    reading.position? number = some .reading ∧
    ∀ moment ∈ late, moment.position? number ≠ some .reading

/-- Every iteration that can still announce with what is in its worker's queue has read
the tracker since. -/
def Informed (since : History) (engine : Engine) : Prop :=
  ∀ (number : Nat) worker seen, engine.workers[number]? = some worker →
    worker.position.seen? = some seen → worker.mailbox.queue = [] →
    ∃ reading, LastReading since number reading ∧ reading.before.tracker.current = seen

/-- A worker that is about to announce goes by a reading that is admitted. -/
def Admits (engine : Engine) (number : Nat) (admitted : Announcement → Prop) : Prop :=
  ∀ worker, engine.workers[number]? = some worker → worker.position.announces = true →
    ∃ seen, admitted seen ∧ worker.position.Stamped seen

variable {start engine next finish : Engine} {since : History} {move : Move} {number : Nat}
  {circumstances : Circumstances} {events : List Event} {reading moment : Moment}

theorem Moment.exists_of_checks (checks : moment.checks number = true) :
    ∃ task, moment.position? number = some (.confirming task) := by
  unfold Moment.checks at checks
  split at checks
  · exact ⟨_, ‹_›⟩
  · cases checks

theorem LastReading.extend (last : LastReading since number reading)
    (other : moment.position? number ≠ some .reading) :
    LastReading (since ++ [moment]) number reading := by
  obtain ⟨early, late, rfl, own, none⟩ := last
  refine ⟨early, late ++ [moment], by simp, own, ?_⟩
  intro later member
  rcases List.mem_append.mp member with old | new
  · exact none later old
  · rw [List.mem_singleton.mp new]
    exact other

theorem lastReading_self (own : reading.position? number = some .reading) :
    LastReading (since ++ [reading]) number reading :=
  ⟨since, [], rfl, own, by simp⟩

theorem Reaches.coherent {agent : Agent} {stream : Generator} {tracker : Tracker}
    {tally : Tally} {path : Option String}
    (reached : (created agent stream tracker tally path).Reaches since engine) :
    ∀ (number : Nat) worker, engine.workers[number]? = some worker → worker.Coherent := by
  refine reached.keeps_workers ?_ ?_ ?_ ?_
  · intro generation context
    exact Worker.coherent_of_position rfl
  · intro engine circumstances worker later coherent advance
    exact advance.coherent coherent
  · intro worker later coherent touched
    exact touched.coherent coherent
  · intro number worker found
    simp [created] at found

theorem move?_height (made : engine.move? move = some (next, events)) :
    engine.tracker.current.height.toNat ≤ next.tracker.current.height.toNat := by
  rcases move?_tracker made with same | ⟨announcement, accepted, changed⟩
  · exact Nat.le_of_eq (by rw [same])
  · rw [changed]
    cases known : engine.tracker.accepted with
    | none => simp [Tracker.current, known]
    | some last =>
        have above := (Tracker.judge_eq_accepted_iff.mp accepted).2 last known
        simp only [Tracker.current, known, Option.getD_some]
        exact Nat.le_of_lt (UInt64.lt_iff_toNat_lt.mp above)

theorem Reaches.height (reached : start.Reaches since finish) :
    start.tracker.current.height.toNat ≤ finish.tracker.current.height.toNat := by
  induction reached with
  | refl => exact Nat.le_refl _
  | move _ made inductionHypothesis => exact Nat.le_trans inductionHypothesis (move?_height made)

/-! ## Readings since a signal -/

theorem stepCaller_delivers {caller : Nat} {reason : Interruption} {notified again : Bool}
    (standing : engine.callers caller = .interruptSending reason notified)
    (taken : engine.stepCaller caller circumstances = some (next, events))
    (delivered : next.callers caller = .interruptReleasing again true) :
    ∃ run, engine.slot.active = some run ∧ engine.receives run.worker = true ∧
      next.workers = (engine.send run.worker (.interrupt reason)).workers := by
  simp only [stepCaller, standing] at taken
  split at taken
  · rename_i run active
    split at taken
    · rename_i present
      cases taken
      exact ⟨run, active, present, rfl⟩
    · cases taken
      rw [setCaller_self] at delivered
      cases delivered
  · cases taken
    rw [setCaller_self] at delivered
    cases delivered

/-- When an interrupt is delivered, the worker in charge has a signal in its queue and no
other worker is in an iteration. -/
theorem informed_of_delivery {sending : Moment} (sound : sending.before.Sound)
    (made : sending.before.move? sending.move = some (sending.after, sending.events))
    (delivers : sending.delivers = true) : Informed [] sending.after := by
  unfold Moment.delivers at delivers
  split at delivers
  · rename_i caller circumstances own
    split at delivers
    · rename_i reason notified again delivered standing after
      subst delivers
      rw [own] at made
      obtain ⟨run, active, present, sent⟩ := stepCaller_delivers standing made after
      intro number worker seen found carries empty
      exfalso
      simp only [sent, send, present, if_true, changeWorker_getElem?] at found
      split at found
      · obtain ⟨before, _, rfl⟩ := Option.map_eq_some_iff.mp found
        exact List.append_ne_nil_of_right_ne_nil _ (by simp) empty
      · rename_i other
        have charged := sound.governed number worker found
          (Position.attached_of_seen? carries)
        rw [sound.inCharge_of_active active] at charged
        exact other (Option.some.inj charged)
    · cases delivers
  · cases delivers

theorem Informed.kept (informed : Informed since engine)
    (made : engine.move? move = some (next, events)) :
    Informed (since ++ [⟨engine, move, events, next⟩]) next := by
  intro number worker seen found carries empty
  cases present : engine.workers[number]? with
  | none =>
      obtain ⟨_, _, _, _, _, _, rfl⟩ := move?_newcomer made present found
      cases carries
  | some before =>
      obtain ⟨later, there, step⟩ := move?_worker made present
      cases Option.some.inj (there.symm.trans found)
      rcases step with ⟨circumstances, own, advance⟩ | ⟨others, touched⟩
      · have position : Moment.position? ⟨engine, move, events, next⟩ number =
            some before.position := Moment.position?_of_step own present
        rcases advance.seen? carries with ⟨standing, current⟩ | ⟨standing, carried, same⟩
        · refine ⟨_, lastReading_self ?_, current⟩
          rw [position, standing]
        · rw [same] at empty
          obtain ⟨reading, last, current⟩ := informed number before seen present carried empty
          refine ⟨reading, last.extend ?_, current⟩
          rw [position]
          intro reads
          exact standing (Option.some.inj reads)
      · obtain ⟨sent, appended⟩ := touched.queue
        rw [touched.position] at carries
        rw [appended] at empty
        have emptyBefore := (List.append_eq_nil_iff.mp empty).1
        obtain ⟨reading, last, current⟩ :=
          informed number before seen present carries emptyBefore
        refine ⟨reading, last.extend ?_, current⟩
        intro reads
        obtain ⟨circumstances, _, own, _⟩ := Moment.exists_of_position? reads
        exact others circumstances own

theorem Reaches.informed (reached : start.Reaches since finish)
    (informed : Informed [] start) : Informed since finish := by
  induction reached with
  | refl => exact informed
  | move _ made inductionHypothesis => exact inductionHypothesis.kept made

theorem Admits.kept {admitted : Announcement → Prop} (admits : engine.Admits number admitted)
    (coherent : ∀ (number : Nat) worker, engine.workers[number]? = some worker →
      worker.Coherent)
    (made : engine.move? move = some (next, events))
    (unchecked : Moment.checks ⟨engine, move, events, next⟩ number = false) :
    next.Admits number admitted := by
  intro worker found announces
  cases present : engine.workers[number]? with
  | none =>
      obtain ⟨_, _, _, _, _, _, rfl⟩ := move?_newcomer made present found
      cases announces
  | some before =>
      obtain ⟨later, there, step⟩ := move?_worker made present
      cases Option.some.inj (there.symm.trans found)
      rcases step with ⟨circumstances, own, advance⟩ | ⟨_, touched⟩
      · rcases advance.announces (coherent number before present) announces with
          ⟨task, standing, _⟩ | ⟨announced, carries⟩
        · have position : Moment.position? ⟨engine, move, events, next⟩ number =
              some before.position := Moment.position?_of_step own present
          simp [Moment.checks, position, standing] at unchecked
        · obtain ⟨seen, granted, stamped⟩ := admits before present announced
          exact ⟨seen, granted, carries seen stamped⟩
      · rw [touched.position] at announces ⊢
        exact admits before present announces

/-- Right after a last look at the queue a worker announces only if the queue was empty,
and then by the reading of its iteration. -/
theorem admits_of_checks {confirming : Moment}
    (made : confirming.before.move? confirming.move =
      some (confirming.after, confirming.events))
    (coherent : ∀ (number : Nat) worker, confirming.before.workers[number]? = some worker →
      worker.Coherent)
    (checks : confirming.checks number = true) :
    confirming.after.Admits number fun seen =>
      ∃ worker, confirming.before.workers[number]? = some worker ∧
        worker.position.seen? = some seen ∧ worker.mailbox.queue = [] := by
  intro later found announces
  obtain ⟨task, position⟩ := Moment.exists_of_checks checks
  obtain ⟨circumstances, worker, own, present, standing⟩ :=
    Moment.exists_of_position? position
  obtain ⟨after, there, step⟩ := move?_worker made present
  cases Option.some.inj (there.symm.trans found)
  rcases step with ⟨_, _, advance⟩ | ⟨others, _⟩
  · rcases advance.announces (coherent number worker present) announces with
      ⟨other, confirms, empty, minting⟩ | ⟨announced, _⟩
    · rw [standing] at confirms
      cases confirms
      refine ⟨task.seen, ⟨worker, present, by rw [standing]; rfl, empty⟩, ?_⟩
      rw [minting]
      rfl
    · rw [standing] at announced
      cases announced
  · exact absurd own (others circumstances)

theorem Reaches.admits {agent : Agent} {stream : Generator} {tracker : Tracker}
    {tally : Tally} {path : Option String} {before : History}
    {admitted : Announcement → Prop}
    (prior : (created agent stream tracker tally path).Reaches before start)
    (reached : start.Reaches since finish) (admits : start.Admits number admitted)
    (unchecked : ∀ moment ∈ since, moment.checks number = false) :
    finish.Admits number admitted := by
  induction reached with
  | refl => exact admits
  | @move history engine next move events reached made inductionHypothesis =>
      have earlier : ∀ moment ∈ history, moment.checks number = false := by
        intro moment member
        exact unchecked moment (List.mem_append_left _ member)
      have last := unchecked ⟨engine, move, events, next⟩ (by simp)
      exact (inductionHypothesis earlier).kept (prior.append reached).coherent made last

theorem tracker_of_update {updating : Moment} {reason : Interruption}
    {announcement : Announcement}
    (made : updating.before.move? updating.move = some (updating.after, updating.events))
    (updates : updating.activity? = some (.updating reason announcement))
    (accepted : updating.before.tracker.judge announcement = .accepted) :
    updating.after.tracker.current = announcement := by
  obtain ⟨caller, circumstances, own, standing⟩ := Moment.exists_of_activity? updates
  rw [own] at made
  have taken : updating.before.stepCaller caller circumstances =
      some (updating.after, updating.events) := made
  simp only [stepCaller, standing, applyUpdate, Tracker.update, accepted] at taken
  obtain ⟨same, _⟩ := Prod.mk.inj (Option.some.inj taken)
  rw [← same]
  rfl

/-- A block that passes its last look at the queue after an interrupt was delivered goes by
a reading of the tracker that was made after the delivery.  So it stands above every height
that was announced before. -/
theorem fresh_after_delivered_notification {agent : Agent} {stream : Generator}
    {tracker : Tracker} {tally : Tally} {path : Option String}
    {first second third fourth fifth : History}
    {updating sending confirming offering : Moment} {finish : Engine}
    {reason : Interruption} {announcement : Announcement} {number : Nat} {block : Block}
    (reached : (created agent stream tracker tally path).Reaches
      (first ++ updating :: (second ++ sending ::
        (third ++ confirming :: (fourth ++ offering :: fifth)))) finish)
    (updates : updating.activity? = some (.updating reason announcement))
    (accepted : updating.before.tracker.judge announcement = .accepted)
    (delivers : sending.delivers = true)
    (checks : confirming.checks number = true)
    (final : ∀ moment ∈ fourth, moment.checks number = false)
    (offers : offering.position? number = some (.offering block)) :
    ∃ reading, LastReading third number reading ∧
      block.difficulty = reading.before.tracker.current.difficulty ∧
      block.height = heightAbove reading.before.tracker.current.height ∧
      min (announcement.height.toNat + 1) 18446744073709551615 ≤ block.height.toNat := by
  obtain ⟨toUpdate, updated, fromUpdate⟩ := reached.cut
  obtain ⟨toSend, sent, fromSend⟩ := fromUpdate.cut
  obtain ⟨toCheck, checked, fromCheck⟩ := fromSend.cut
  obtain ⟨toOffer, _, _⟩ := fromCheck.cut
  have reachedSend := (toUpdate.move updated).append toSend
  have reachedCheck := (reachedSend.move sent).append toCheck
  have admits := Reaches.admits (reachedCheck.move checked) toOffer
    (admits_of_checks checked reachedCheck.coherent checks) final
  obtain ⟨_, worker, _, found, standing⟩ := Moment.exists_of_position? offers
  obtain ⟨seen, ⟨checker, present, carries, empty⟩, stamped⟩ :=
    admits worker found (by rw [standing]; rfl)
  rw [standing] at stamped
  have sound := reachedSend.sound (sound_created agent stream tracker tally path)
  have informed := toCheck.informed (informed_of_delivery sound sent delivers)
  obtain ⟨reading, last, current⟩ := informed number checker seen present carries empty
  have later : announcement.height.toNat ≤ seen.height.toNat := by
    obtain ⟨early, late, rfl, _⟩ := last
    obtain ⟨toReading, _, _⟩ := toCheck.cut
    rw [← current, ← tracker_of_update updated updates accepted]
    exact Nat.le_trans toSend.height (Nat.le_trans (move?_height sent) toReading.height)
  refine ⟨reading, last, ?_, ?_, ?_⟩
  · rw [current]
    exact stamped.1
  · rw [current]
    exact stamped.2
  · rw [stamped.2]
    exact heightAbove_mono later

/-- A worker waits when a notification comes. -/
def beforeNotification : List Move :=
  .call 0 (.start (.ofWallet "")) :: steps (.caller 0) 7 ++ steps (.worker 0) 4 ++
    .call 1 (.peerBlock ⟨7, 3⟩) :: steps (.caller 1) 1

def notifying : Moment := (small.record beforeNotification).2.momentOf (.step (.caller 1) calm)

def interrupting : Moment :=
  (notifying.after.record (steps (.caller 1) 1)).2.momentOf (.step (.caller 1) calm)

def lastLook : Moment :=
  (interrupting.after.record (steps (.caller 1) 1 ++ steps (.worker 0) 9)).2.momentOf
    (.step (.worker 0) calm)

def announcing : Moment :=
  (lastLook.after.record (steps (.worker 0) 1)).2.momentOf (.step (.worker 0) calm)

theorem fresh_after_peerBlock :
    ∃ block, announcing.position? 0 = some (.offering block) ∧ 4 ≤ block.height.toNat := by
  have updated : (small.record beforeNotification).2.Reaches [notifying] notifying.after :=
    reaches_momentOf (by decide)
  have sent : (notifying.after.record (steps (.caller 1) 1)).2.Reaches [interrupting]
      interrupting.after := reaches_momentOf (by decide)
  have checked : (interrupting.after.record
      (steps (.caller 1) 1 ++ steps (.worker 0) 9)).2.Reaches [lastLook] lastLook.after :=
    reaches_momentOf (by decide)
  have offered : (lastLook.after.record (steps (.worker 0) 1)).2.Reaches [announcing]
      announcing.after := reaches_momentOf (by decide)
  have reached : small.Reaches ((small.record beforeNotification).1 ++ notifying ::
      ((notifying.after.record (steps (.caller 1) 1)).1 ++ interrupting ::
        ((interrupting.after.record (steps (.caller 1) 1 ++ steps (.worker 0) 9)).1 ++
          lastLook :: ((lastLook.after.record (steps (.worker 0) 1)).1 ++ announcing :: []))))
      announcing.after :=
    (reaches_record _).append (updated.append ((reaches_record _).append
      (sent.append ((reaches_record _).append
        (checked.append ((reaches_record _).append offered))))))
  have offers : ∃ block, announcing.position? 0 = some (.offering block) := ⟨_, rfl⟩
  obtain ⟨block, stands⟩ := offers
  have updates : notifying.activity? = some (.updating .peerBlock ⟨7, 3⟩) := by decide
  obtain ⟨_, _, _, _, above⟩ := fresh_after_delivered_notification reached updates
    (by decide) (by decide) (by decide) (by decide) stands
  exact ⟨block, stands, above⟩

end Engine

end MiningAgent
